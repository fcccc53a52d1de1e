import Switchboard.Proofs.Calls.Refusals
import Switchboard.Proofs.Hub.Isolation
import Switchboard.Proofs.Hub.Starts
import Switchboard.Proofs.Schema.Cleaning

namespace Switchboard

open Routine

namespace Hub

variable {s s' s'' : Hub}

/-- Nothing of a hub is another but the next number and the times at which tasks are woken. -/
structure Untouched (s s' : Hub) : Prop where
  jobs : s'.jobs = s.jobs
  rest : { s' with nextNumber := s.nextNumber, timers := s.timers } = s

theorem untouched_refl (s : Hub) : Untouched s s := ⟨rfl, rfl⟩

theorem untouched_disarm (s : Hub) (task : Nat) : Untouched s (s.disarm task) := ⟨rfl, rfl⟩

theorem Untouched.trans (h : Untouched s s') (h' : Untouched s' s'') : Untouched s s'' where
  jobs := h'.jobs.trans h.jobs
  rest := by
    have hlater := h'.rest
    have hfirst := h.rest
    rw [← hlater] at hfirst
    exact hfirst

/-- A routine that only tells something leaves the hub as it is. -/
theorem run_onlyTells {α : Type} {a : α} {r : Routine α} (h : r.OnlyTells a) (s : Hub) (task : Nat)
    (next : α → Routine Outcome) : ∃ spent s', Untouched s s' ∧
      ∀ fuel, run (spent + fuel) s task (r.bind next) = run fuel s' task (next a) := by
  cases h with
  | atOnce =>
    refine ⟨0, s, untouched_refl s, fun fuel => ?_⟩
    rw [Nat.zero_add]
    rfl
  | numbered parent =>
    refine ⟨1, s.number.2.disarm task, ⟨rfl, rfl⟩, fun fuel => ?_⟩
    rw [Nat.add_comm]
    rfl

theorem run_act_onlyTells {α : Type} {a : α} {r : Routine α} (h : r.OnlyTells a) {s : Hub}
    {task : Nat} {action : Action} {after : action.Reply → Routine Outcome}
    {next : α → Routine Outcome} (hstep : s.step task action after = (s, some (r.bind next))) :
    ∃ spent s', Untouched s s' ∧
      ∀ fuel, run (spent + fuel) s task (.act action after) = run fuel s' task (next a) := by
  obtain ⟨spent, s', hs', hrun⟩ := run_onlyTells h (s.disarm task) task next
  refine ⟨spent + 1, s', (untouched_disarm s task).trans hs', fun fuel => ?_⟩
  rw [Nat.add_right_comm, ← hrun, run, hstep]

end Hub

/-- What a call that is turned away comes to. -/
structure TurnsAway (x : Exchange) (name : String) (args : List Json) (entrance : Entrance)
    (e : CallError) : Prop where
  tells : (x.enter name args entrance).OnlyTells (.error e)
  /-- Whatever the hub is like and whatever follows the call, the hub stays as it is. -/
  outside : ∀ s task (next : Except CallError Json → Routine Outcome),
    ∃ spent s', Hub.Untouched s s' ∧ ∀ fuel,
      Hub.run (spent + fuel) s task ((x.enter name args entrance).bind next) =
        Hub.run fuel s' task (next (.error e))
  inside : ∀ caller, entrance = .callWait caller → ∀ s task, s.exchange = x →
    ∀ next : Except PanicPayload (Except CallError Json) → Routine Outcome,
    ∃ spent s', Hub.Untouched s s' ∧ ∀ fuel,
      Hub.run (spent + fuel) s task (.act (.call name args caller) next) =
        Hub.run fuel s' task (next (.ok (.error e)))
  launched : entrance = .call → ∀ s task, s.exchange = x →
    ∀ next : Except PanicPayload (Except CallError Json) → Routine Outcome,
    ∃ spent s', Hub.Untouched s s' ∧ ∀ fuel,
      Hub.run (spent + fuel) s task (.act (.launch name args) next) =
        Hub.run fuel s' task (next (.ok (.error e)))
  /-- Only the parameters of the method have a say, and whether it is a job: not its handler, its
  lock or its description. -/
  blind : ∀ y : Exchange, (y.registry.method? name).map Method.front =
    (x.registry.method? name).map Method.front → y.enter name args entrance =
      x.enter name args entrance

theorem Exchange.Refusal.turnsAway {x : Exchange} {name : String} {args : List Json}
    {entrance : Entrance} {e : CallError} (h : x.Refusal name args entrance e) :
    TurnsAway x name args entrance e where
  tells := h.onlyTells
  outside s task next := Hub.run_onlyTells h.onlyTells s task next
  inside caller hentrance s task hx next := by
    subst hentrance hx
    exact Hub.run_act_onlyTells h.onlyTells.attempt rfl
  launched hentrance s task hx next := by
    subst hentrance hx
    exact Hub.run_act_onlyTells h.onlyTells.attempt rfl
  blind _ hfront := (h.blind hfront).2

/-- How the call of a job goes on once its submission is answered. -/
def Entrance.GoesOn (reply : Except CallError Nat) (rest : Trace)
    (e : Except PanicPayload (Except CallError Json)) : Entrance → Prop
  | .call | .callJob => rest = [] ∧ e = .ok (reply.map .nat)
  | .callWait caller =>
    match reply with
    | .error error => rest = [] ∧ e = .ok (.error error)
    | .ok id => ∃ ending before after, Guarded id before after caller ∧
      rest = before ++ ⟨.awaitJob id none, ending⟩ :: after ∧
      e = .ok (Except.bind ending JobSnapshot.outcome)

section Enter

variable {x : Exchange} {m : Method} {args cleaned : List Json} {entrance : Entrance} {tr : Trace}
  {e : Except PanicPayload (Except CallError Json)}

theorem runs_enter_plain (hm : x.registry.method? m.name = some m) (hjob : m.job = none)
    (hclean : Accepts.clean m.accepts args = .ok cleaned) (hentrance : entrance ≠ .callJob) :
    (x.enter m.name args entrance).Runs tr e ↔ ∃ token trh h,
      HandlerEnds m { token } cleaned trh h ∧
        tr = Exchange.callTrace m args entrance.caller? token trh h ∧ e = h.answer m.name := by
  cases entrance with
  | call => exact Exchange.runs_call hm hjob hclean
  | callJob => exact absurd rfl hentrance
  | callWait caller => exact Exchange.runs_callWait hm hjob hclean

theorem runs_enter_job {o : JobOptions} (hm : x.registry.method? m.name = some m)
    (hjob : m.job = some o) (hclean : Accepts.clean m.accepts args = .ok cleaned) :
    (x.enter m.name args entrance).Runs tr e ↔ ∃ reply rest,
      tr = submission x m o args cleaned reply :: rest ∧ entrance.GoesOn reply rest e := by
  have hcall : ∀ {tr e}, (x.call m.name args).Runs tr e ↔ ∃ reply rest,
      tr = submission x m o args cleaned reply :: rest ∧ rest = [] ∧ e = .ok (reply.map .nat) := by
    intro tr e
    rw [runs_call_job hm hjob hclean]
    constructor
    · rintro ⟨reply, rfl, he⟩
      exact ⟨reply, [], rfl, rfl, he⟩
    · rintro ⟨reply, _, rfl, rfl, he⟩
      exact ⟨reply, rfl, he⟩
  cases entrance with
  | call => exact hcall
  | callJob =>
    -- a job is submitted in the same manner whether it is asked for as one or not
    have hsame : x.callJob m.name args = x.call m.name args := by
      simp only [Exchange.callJob, Exchange.call, hm, hjob]
    simp only [Exchange.enter, hsame]
    exact hcall
  | callWait caller =>
    refine (runs_callWait_job hm hjob hclean).trans ?_
    constructor
    · rintro (⟨error, rfl, he⟩ | ⟨id, ending, before, after, hguarded, rfl, he⟩)
      · exact ⟨.error error, [], rfl, rfl, he⟩
      · exact ⟨.ok id, _, rfl, ending, before, after, hguarded, rfl, he⟩
    · rintro ⟨reply, rest, rfl, hgoes⟩
      cases reply with
      | error error =>
        obtain ⟨rfl, he⟩ := hgoes
        exact .inl ⟨error, rfl, he⟩
      | ok id =>
        obtain ⟨ending, before, after, hguarded, rfl, he⟩ := hgoes
        exact .inr ⟨id, ending, before, after, hguarded, rfl, he⟩

end Enter

/-- What a call comes to whose arguments are cleaned so. -/
structure Admits (x : Exchange) (name : String) (m : Method) (args cleaned : List Json) : Prop where
  length : cleaned.length = m.accepts.length
  values : ∀ (i : Nat) (p : Param), m.accepts[i]? = some p → ∃ value,
    p.clean p.name args[i]? [] = (value, []) ∧ cleaned[i]? = some (Json.ofOption value)
  plain : m.job = none → ∀ entrance, entrance ≠ .callJob → ∀ tr e,
    (x.enter name args entrance).Runs tr e ↔ ∃ token trh h,
      HandlerEnds m { token } cleaned trh h ∧
        tr = Exchange.callTrace m args entrance.caller? token trh h ∧ e = h.answer name
  thread : ∀ context tr e, (x.work (.thread name cleaned context)).Runs tr e ↔
    (∃ p, (m.body context cleaned).prepare.Runs tr (.error p) ∧ e = .error p) ∨
      ∃ tr₁ tr₂, tr = tr₁ ++ tr₂ ∧ (m.body context cleaned).prepare.Runs tr₁ (.ok ()) ∧
        (m.body context cleaned).run.Runs tr₂ e
  submitted : ∀ o, m.job = some o → ∀ entrance tr e, (x.enter name args entrance).Runs tr e ↔
    ∃ reply rest, tr = submission x m o args cleaned reply :: rest ∧ entrance.GoesOn reply rest e
  /-- In any run, a job that was taken in from such a call shows them from first to last, and what
  is started for it is the method with them. -/
  taken : ∀ (b : Builder), (⟨b.settings, b.registry⟩ : Exchange) = x → ∀ strokes id o,
    (id, jobOfCall x m o args cleaned) ∈ b.build.takenIn strokes →
      b.build.life id strokes ≠ [] ∧
      (∀ snapshot ∈ b.build.life id strokes, snapshot.arguments = cleaned) ∧
      (∀ droppable body, .start id droppable body ∈ b.build.wanted strokes →
        body = .method name cleaned args) ∧
      (b.build.plays strokes).exchange = x
  job : ∀ id tr e, (x.runJob id (.method name cleaned args)).Runs tr e ↔
    ∃ trh h, HandlerEnds m ⟨.job id, some id⟩ cleaned trh h ∧
      match h.answer name with
      | .error p => tr = trh ∧ e = .error p
      | .ok result =>
        tr = trh ++ h.epilogue name args ++ [⟨.report (.finished id result), ()⟩] ∧
          e = .ok (.returned .null)

theorem arguments_of_taken {x : Exchange} {m : Method} {o : JobOptions} {args cleaned : List Json}
    {b : Builder} {strokes : List Stroke} {id : Nat}
    (h : (id, jobOfCall x m o args cleaned) ∈ b.build.takenIn strokes) :
    b.build.life id strokes ≠ [] ∧
      ∀ snapshot ∈ b.build.life id strokes, snapshot.arguments = cleaned := by
  obtain ⟨hlife, now, hsame⟩ := (Hub.tidy_build b).life_of_takenIn rfl h
  exact ⟨hlife, fun snapshot hmem => (hsame snapshot hmem).arguments⟩

theorem admits {x : Exchange} {m : Method} {args cleaned : List Json}
    (hm : x.registry.method? m.name = some m)
    (hclean : Accepts.clean m.accepts args = .ok cleaned) : Admits x m.name m args cleaned where
  length := Accepts.length_of_clean hclean
  values i p hp := by
    have heach := Accepts.cleanEach_of_clean hclean
    obtain ⟨value, hvalue, hresult⟩ := Accepts.cleanEach_clean (congrArg Prod.snd heach) hp
    rw [heach] at hresult
    exact ⟨value, hvalue, hresult⟩
  plain hjob _ hentrance _ _ := runs_enter_plain hm hjob hclean hentrance
  thread _ _ _ := runs_thread hm
  submitted _ hjob _ _ _ := runs_enter_job hm hjob hclean
  taken b hx strokes _ _ htaken := by
    obtain ⟨hlife, harguments⟩ := arguments_of_taken htaken
    exact ⟨hlife, harguments, fun _ _ hstart => Hub.body_of_started htaken hstart,
      (Hub.exchange_plays b.build strokes).trans hx⟩
  job _ _ _ := Exchange.runs_runJob hm

def supplied : Json → Option Json
  | .null => none
  | args => some args

theorem supplied_eq (args : Json) : (if args.isNull then none else some args) = supplied args := by
  cases args <;> rfl

def SourceEntry.cleaned (entry : SourceEntry) (args : Json) : Option Json × FieldErrors :=
  entry.accepts.clean entry.accepts.name (supplied args) []

/-- Why a subscriber is turned away. -/
inductive SourceRefusal (x : Exchange) (name : String) (args : Json) : CallError → Prop where
  | unknown (hentry : x.registry.eventSources.get? name = none) :
      SourceRefusal x name args (.eventSourceNotFound name)
  | rejected {entry : SourceEntry} (hentry : x.registry.eventSources.get? name = some entry)
      (herrors : (entry.cleaned args).2 ≠ []) :
      SourceRefusal x name args (.validation (entry.cleaned args).2)

section Sources

variable {x : Exchange} {s : Hub} {name : String} {args : Json} {entry : SourceEntry}
  {e : CallError}

theorem openSource_eq (hentry : s.exchange.registry.eventSources.get? name = some entry) :
    s.openSource name args =
      match entry.cleaned args with
      | (cleaned, []) => entry.source (cleaned.getD .null)
      | (_, errors) => .error (.validation errors) := by
  simp only [Hub.openSource, hentry, supplied_eq]
  rfl

theorem openSource_of_clean {cleaned : Option Json}
    (hentry : s.exchange.registry.eventSources.get? name = some entry)
    (hclean : entry.cleaned args = (cleaned, [])) :
    s.openSource name args = entry.source (cleaned.getD .null) := by
  simp only [openSource_eq hentry, hclean]

theorem SourceRefusal.openSource (h : SourceRefusal x name args e)
    (hfront : (s.exchange.registry.eventSources.get? name).map SourceEntry.accepts =
      (x.registry.eventSources.get? name).map SourceEntry.accepts) :
    s.openSource name args = .error e := by
  cases h with
  | unknown hentry =>
    rw [hentry] at hfront
    have hnone := Option.map_eq_none_iff.mp hfront
    simp only [Hub.openSource, hnone]
  | @rejected entry hentry herrors =>
    rw [hentry] at hfront
    obtain ⟨entry', hentry', haccepts⟩ := Option.map_eq_some_iff.mp hfront
    have hsame : entry'.cleaned args = entry.cleaned args := by
      simp only [SourceEntry.cleaned, haccepts]
    rw [openSource_eq hentry', hsame]
    split
    next heq => exact absurd (congrArg Prod.snd heq) herrors
    next heq => rw [heq]

theorem startSubscription_of_error (h : s.openSource name args = .error e) :
    s.startSubscription name args = (s, .error e) ∧
      s.subscribe name args = (s.settle, .error e) := by
  have hstart : s.startSubscription name args = (s, .error e) := by
    simp only [Hub.startSubscription, h]
  refine ⟨hstart, ?_⟩
  simp only [Hub.subscribe, hstart]

theorem startSubscription_of_source {source : EventSource}
    (h : s.openSource name args = .ok source) : ∃ s' n task,
      s.startSubscription name args = (s', .ok ⟨n, task⟩) ∧ s'.jobs = s.jobs ∧
        s'.tasks = s.tasks ++ [{ id := task, routine := Exchange.startRounds n name source }] := by
  simp only [Hub.startSubscription, h]
  refine ⟨_, s.nextNumber, s.nextNumber + 1, rfl, ?_, Hub.tasks_enqueue _ _⟩
  exact (Hub.sameKeeping_spawn _ _ _).jobs

end Sources

/-- What a subscription comes to that is turned away. -/
structure TurnsSubscriberAway (x : Exchange) (name : String) (args : Json) (e : CallError) :
    Prop where
  unchanged : ∀ s : Hub, (s.exchange.registry.eventSources.get? name).map SourceEntry.accepts =
    (x.registry.eventSources.get? name).map SourceEntry.accepts →
      s.startSubscription name args = (s, .error e) ∧
        s.subscribe name args = (s.settle, .error e)

/-- What a subscription comes to whose arguments are cleaned so. -/
structure AdmitsSubscriber (x : Exchange) (name : String) (entry : SourceEntry) (args : Json)
    (cleaned : Option Json) : Prop where
  factory : ∀ s : Hub, s.exchange = x →
    s.openSource name args = entry.source (cleaned.getD .null)
  unmade : ∀ (s : Hub) e, s.exchange = x → entry.source (cleaned.getD .null) = .error e →
    s.startSubscription name args = (s, .error e)
  started : ∀ (s : Hub) source, s.exchange = x → entry.source (cleaned.getD .null) = .ok source →
    ∃ s' n task, s.startSubscription name args = (s', .ok ⟨n, task⟩) ∧ s'.jobs = s.jobs ∧
      s'.tasks = s.tasks ++ [{ id := task, routine := Exchange.startRounds n name source }]

theorem SourceRefusal.turnsSubscriberAway {x : Exchange} {name : String} {args : Json}
    {e : CallError} (h : SourceRefusal x name args e) : TurnsSubscriberAway x name args e where
  unchanged _ hfront := startSubscription_of_error (h.openSource hfront)

theorem admitsSubscriber {x : Exchange} {name : String} {entry : SourceEntry} {args : Json}
    {cleaned : Option Json} (hentry : x.registry.eventSources.get? name = some entry)
    (hclean : entry.cleaned args = (cleaned, [])) :
    AdmitsSubscriber x name entry args cleaned := by
  have hopen : ∀ s : Hub, s.exchange = x →
      s.openSource name args = entry.source (cleaned.getD .null) := by
    rintro s rfl
    exact openSource_of_clean hentry hclean
  refine ⟨hopen, fun s e hx he => ?_, fun s source hx hsource => ?_⟩
  · exact (startSubscription_of_error ((hopen s hx).trans he)).1
  · exact startSubscription_of_source ((hopen s hx).trans hsource)

/-- Nothing is done with arguments before they are cleaned. -/
structure CleansFirst (x : Exchange) : Prop where
  refused : ∀ name args, (∀ m, x.registry.method? name = some m →
    ∃ errors, Accepts.clean m.accepts args = .error errors) →
      ∀ entrance, ∃ e, x.Refusal name args entrance e
  turnsAway : ∀ name args entrance e, x.Refusal name args entrance e →
    TurnsAway x name args entrance e
  admits : ∀ name m args cleaned, x.registry.method? name = some m →
    Accepts.clean m.accepts args = .ok cleaned → Admits x name m args cleaned
  given : ∀ entry : SourceEntry,
    entry.cleaned .null = entry.accepts.clean entry.accepts.name none [] ∧
      ∀ args, args ≠ .null →
        entry.cleaned args = entry.accepts.clean entry.accepts.name (some args) []
  sourceRefused : ∀ name args, (∀ entry, x.registry.eventSources.get? name = some entry →
    (entry.cleaned args).2 ≠ []) → ∃ e, SourceRefusal x name args e
  turnsSubscriberAway : ∀ name args e, SourceRefusal x name args e →
    TurnsSubscriberAway x name args e
  admitsSubscriber : ∀ name entry args cleaned,
    x.registry.eventSources.get? name = some entry → entry.cleaned args = (cleaned, []) →
      AdmitsSubscriber x name entry args cleaned

/-- However a method is called and whatever is registered, no handler, no lock, no description and
no source has anything to do with arguments that were not cleaned. -/
theorem arguments_are_cleaned_first {x : Exchange} (h : x.registry.Made) : CleansFirst x where
  refused _ _ hno entrance := Exchange.refused hno entrance
  turnsAway _ _ _ _ hrefusal := hrefusal.turnsAway
  admits name m args cleaned hm hclean := by
    obtain rfl := h.name_of hm
    exact admits hm hclean
  given entry := by
    refine ⟨rfl, fun args hargs => ?_⟩
    cases args with
    | null => exact absurd rfl hargs
    | _ => rfl
  sourceRefused name args hno := by
    cases hentry : x.registry.eventSources.get? name with
    | none => exact ⟨_, .unknown hentry⟩
    | some entry => exact ⟨_, .rejected hentry (hno entry hentry)⟩
  turnsSubscriberAway _ _ _ hrefusal := hrefusal.turnsSubscriberAway
  admitsSubscriber _ _ _ _ hentry hclean := admitsSubscriber hentry hclean

def double : Method where
  name := "double"
  accepts := [(Param.int "n").require]
  body _ args := (return .returned (args.headD .null) : Routine Outcome)
  job := some { lock := fun _ => some "L" }

def ticks : SourceEntry where
  accepts := Param.int "every"
  source args :=
    .ok (.playlist { items := [.args], args, position := 0, interval := 1000, eventType := .added })

def clock : Builder where
  registry := { methods := [("double", double)], eventSources := [("ticks", ticks)] }

def clockExchange : Exchange := ⟨clock.settings, clock.registry⟩

theorem made_clock : clockExchange.registry.Made := by
  have hmethod : ({} : Registry).addMethod double =
      .ok { methods := [("double", double)] } := by rfl
  have hsource : ({ methods := [("double", double)] } : Registry).addEventSource "ticks" ticks =
      .ok clock.registry := by rfl
  exact .source (.method .empty hmethod) hsource

def doubleCalled : List Stroke :=
  [.begin (clockExchange.call "double" [.str "21"]).outcome, .act 0, .request]

/-- What was given as a text is a number to the job and to all who look at it. -/
theorem arguments_are_cleaned_first_by_clock :
    clockExchange.registry.Made ∧
      (∃ errors, TurnsAway clockExchange "double" [.str "x"] (.callWait none)
        (.validation errors)) ∧
      TurnsAway clockExchange "halve" [] .call (.methodNotFound "halve") ∧
      (clock.build.life 1 doubleCalled ≠ [] ∧
        ∀ snapshot ∈ clock.build.life 1 doubleCalled, snapshot.arguments = [.int 21]) ∧
      AdmitsSubscriber clockExchange "ticks" ticks .null none := by
  have hfirst : CleansFirst clockExchange := arguments_are_cleaned_first made_clock
  have hdouble : clockExchange.registry.method? "double" = some double := rfl
  obtain ⟨errors, hrejected⟩ : ∃ errors,
      Accepts.clean double.accepts [.str "x"] = .error errors := ⟨_, rfl⟩
  have hclean : Accepts.clean double.accepts [.str "21"] = .ok [.int 21] := by rfl
  have htaken : (1, jobOfCall clockExchange double { lock := fun _ => some "L" } [.str "21"]
      [.int 21]) ∈ clock.build.takenIn doubleCalled := by
    have hall : clock.build.takenIn doubleCalled = [(1, jobOfCall clockExchange double
      { lock := fun _ => some "L" } [.str "21"] [.int 21])] := by rfl
    rw [hall]
    exact List.mem_singleton.mpr rfl
  obtain ⟨hlife, harguments, -⟩ :=
    (hfirst.admits _ _ _ _ hdouble hclean).taken clock rfl doubleCalled 1 _ htaken
  have hnumber : ticks.cleaned .null = (none, []) := by rfl
  refine ⟨made_clock, ⟨errors, ?_⟩, ?_, ⟨hlife, harguments⟩, ?_⟩
  · exact hfirst.turnsAway _ _ _ _ (.rejected hdouble (fun _ => rfl) hrejected)
  · exact hfirst.turnsAway _ _ _ _ (.unknown rfl)
  · exact hfirst.admitsSubscriber _ _ _ _ rfl hnumber

end Switchboard
