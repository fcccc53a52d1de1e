import Switchboard.Proofs.Calls.Refusals
import Switchboard.Proofs.Hub.Isolation

namespace Switchboard

open Routine JobTable

/-- What was called or waited for, with what came of it. -/
inductive Branch where
  | call (name : String) (args : List Json) (caller : Option Token)
      (result : Except PanicPayload (Except CallError Json))
  | launch (name : String) (args : List Json)
      (result : Except PanicPayload (Except CallError Json))
  | thread (name : String) (args : List Json) (context : CallContext) (outcome : Outcome)
  | job (id : Nat) (name : String) (args raw : List Json) (ending : Except CallError JobSnapshot)

namespace Branch

/-- What whoever made a call, or waited for a job, is told. -/
def told? : Branch → Option (Except CallError Json)
  | call _ _ _ (.ok result) | launch _ _ (.ok result) => some result
  | job _ _ _ _ ending => some (Except.bind ending JobSnapshot.outcome)
  | _ => none

/-- The branch has come to an error, and whoever made the call is told. -/
def Fails (branch : Branch) (e : CallError) : Prop := branch.told? = some (.error e)

end Branch

structure Begun where
  threads : List (Nat × String × List Json × CallContext) := []
  jobs : List (Nat × JobBody) := []

namespace Begun

def after (b : Begun) : Sigma Action.Reply → Begun
  | ⟨.spawn (.thread method args context), task⟩ =>
    { b with threads := (task, method, args, context) :: b.threads }
  | ⟨.ask (.submit job), .ok id⟩ => { b with jobs := (id, job.body) :: b.jobs }
  | _ => b

/-- The reply to an action tells what came of a branch. -/
inductive Told (b : Begun) : Sigma Action.Reply → Branch → Prop where
  | call (name : String) (args : List Json) (caller : Option Token)
      (result : Except PanicPayload (Except CallError Json)) :
      Told b ⟨.call name args caller, result⟩ (.call name args caller result)
  | launch (name : String) (args : List Json)
      (result : Except PanicPayload (Except CallError Json)) :
      Told b ⟨.launch name args, result⟩ (.launch name args result)
  | thread {task : Nat} {name : String} {args : List Json} {context : CallContext}
      (outcome : Outcome) (h : (task, name, args, context) ∈ b.threads) :
      Told b ⟨.join task, outcome⟩ (.thread name args context outcome)
  | job {id : Nat} {name : String} {args raw : List Json}
      (ending : Except CallError JobSnapshot) (h : (id, .method name args raw) ∈ b.jobs) :
      Told b ⟨.awaitJob id none, ending⟩ (.job id name args raw ending)

/-- A branch is among those that a trace tells of, with what was begun on the way. -/
def Bears (b : Begun) : Trace → Branch → Prop
  | [], _ => False
  | step :: rest, branch => b.Told step branch ∨ (b.after step).Bears rest branch

end Begun

def Answers : Sigma Action.Reply → Prop
  | ⟨.ask _, .error _⟩ => False
  | _ => True

/-- No request was turned away. -/
def Trace.Answered (tr : Trace) : Prop := ∀ step ∈ tr, Answers step

/-- A branch came about so, with everything that it branches into: a routine of the exchange has run
so, or a job has ended as its body did, or its time was up before it had its lock. -/
inductive Happens (x : Exchange) : Branch → Prop where
  | call {name : String} {args : List Json} {caller : Option Token} {tr : Trace}
      {result : Except PanicPayload (Except CallError Json)}
      (hruns : (x.callWait name args caller).Runs tr result) (hanswered : tr.Answered)
      (hbranches : ∀ branch, Begun.Bears {} tr branch → Happens x branch) :
      Happens x (.call name args caller result)
  | launch {name : String} {args : List Json} {tr : Trace}
      {result : Except PanicPayload (Except CallError Json)}
      (hruns : (x.call name args).Runs tr result) (hanswered : tr.Answered)
      (hbranches : ∀ branch, Begun.Bears {} tr branch → Happens x branch) :
      Happens x (.launch name args result)
  | thread {name : String} {args : List Json} {context : CallContext} {tr : Trace}
      {e : Except PanicPayload Outcome}
      (hruns : (x.work (.thread name args context)).Runs tr e) (hanswered : tr.Answered)
      (hbranches : ∀ branch, Begun.Bears {} tr branch → Happens x branch) :
      Happens x (.thread name args context (.ofAttempt e))
  | job {e : JobEntry JobBody} {name : String} {args raw : List Json} {tr : Trace}
      {result : Except CallError Json} (now : Nat)
      (hruns : (x.jobOutcome e.id (.method name args raw)).Runs tr (.ok result))
      (hanswered : tr.Answered)
      (hbranches : ∀ branch, Begun.Bears {} tr branch → Happens x branch)
      (hkept : e.cancelled = false) :
      Happens x (.job e.id name args raw (.ok (e.settled now result).snapshot))
  | timedOut {e : JobEntry JobBody} {name : String} {args raw : List Json} (now : Nat)
      (lock : String) :
      Happens x (.job e.id name args raw
        (.ok (e.dismissed now .failed (.lockTimeout lock)).snapshot))

/-- The handler of a method has ended so, and in the meantime it has done so, on a thread if the
method needs one. -/
inductive Handled (x : Exchange) (m : Method) (context : CallContext) (args : List Json) :
    Trace → HandlerEnd → Trace → Prop where
  | polled {tr : Trace} {h : HandlerEnd} (hm : m.blocking = false)
      (hends : HandlerEnds m context args tr h) : Handled x m context args tr h tr
  | onThread {task : Nat} {tr : Trace} {e : Except PanicPayload Outcome} (hm : m.blocking = true)
      (hruns : (x.work (.thread m.name args context)).Runs tr e) :
      Handled x m context args
        [⟨.spawn (.thread m.name args context), task⟩, ⟨.join task, .ofAttempt e⟩]
        (.ofOutcome (.onThread task) (.ofAttempt e)) tr

/-- The handler of a method was begun for a branch, and what became of the branch is what the
exchange or the table has made of the end of the handler. -/
inductive Hosts (x : Exchange) : Branch → Method → HandlerEnd → Trace → Prop where
  | call {m : Method} {args cleaned : List Json} {caller : Option Token} {token : Token}
      {trh tr : Trace} {h : HandlerEnd} {result : Except PanicPayload (Except CallError Json)}
      (hm : x.registry.method? m.name = some m) (hjob : m.job = none)
      (hclean : Accepts.clean m.accepts args = .ok cleaned)
      (hhandled : Handled x m { token } cleaned trh h tr)
      (hruns : (x.callWait m.name args caller).Runs
        (Exchange.callTrace m args caller token trh h) result) :
      Hosts x (.call m.name args caller result) m h tr
  | launch {m : Method} {args cleaned : List Json} {token : Token} {trh tr : Trace}
      {h : HandlerEnd} {result : Except PanicPayload (Except CallError Json)}
      (hm : x.registry.method? m.name = some m) (hjob : m.job = none)
      (hclean : Accepts.clean m.accepts args = .ok cleaned)
      (hhandled : Handled x m { token } cleaned trh h tr)
      (hruns : (x.call m.name args).Runs (Exchange.callTrace m args none token trh h) result) :
      Hosts x (.launch m.name args result) m h tr
  | job {m : Method} {args raw : List Json} {trh tr : Trace} {h : HandlerEnd}
      {e : JobEntry JobBody} {result : Except CallError Json} (now : Nat)
      (hm : x.registry.method? m.name = some m)
      (hhandled : Handled x m ⟨.job e.id, some e.id⟩ args trh h tr)
      (hruns : (x.jobOutcome e.id (.method m.name args raw)).Runs
        (trh ++ h.epilogue m.name raw) (.ok result)) (hkept : e.cancelled = false) :
      Hosts x (.job e.id m.name args raw (.ok (e.settled now result).snapshot)) m h tr

/-- A call or a job came to nothing before any handler was begun. -/
inductive Refuses (x : Exchange) : Branch → CallError → Prop where
  | call {name : String} {args : List Json} {caller : Option Token} {e : CallError} {tr : Trace}
      {result : Except PanicPayload (Except CallError Json)}
      (h : x.Refusal name args (.callWait caller) e)
      (hruns : (x.callWait name args caller).Runs tr result) :
      Refuses x (.call name args caller result) e
  | launch {name : String} {args : List Json} {e : CallError} {tr : Trace}
      {result : Except PanicPayload (Except CallError Json)} (h : x.Refusal name args .call e)
      (hruns : (x.call name args).Runs tr result) : Refuses x (.launch name args result) e
  | job {name : String} {args raw : List Json} {tr : Trace} {e : JobEntry JobBody}
      {result : Except CallError Json} (now : Nat) (hm : x.registry.method? name = none)
      (hruns : (x.jobOutcome e.id (.method name args raw)).Runs tr (.ok result))
      (hkept : e.cancelled = false) :
      Refuses x (.job e.id name args raw (.ok (e.settled now result).snapshot))
        (.methodNotFound name)
  | timedOut {e : JobEntry JobBody} {name : String} {args raw : List Json} (now : Nat)
      (lock : String) :
      Refuses x (.job e.id name args raw
        (.ok (e.dismissed now .failed (.lockTimeout lock)).snapshot)) (.lockTimeout lock)

/-- Where an error comes from. -/
inductive Origin where
  | method (name : String) (raised : CallError)
  | refusal (error : CallError)

/-- The error as it goes up: a failure is put down to its method, and anything else stays what it
is. -/
def Origin.told : Origin → CallError
  | method name (.failed text) => .call name text
  | method _ e | refusal e => e

/-- What becomes of a branch is the doing of an origin below it: of the handler that was begun for
it, or of a branch whose error that handler has passed on unchanged. -/
inductive Stems (x : Exchange) : Origin → Branch → Prop where
  | raised {branch : Branch} {m : Method} {h : HandlerEnd} {tr : Trace} {e : CallError}
      (hhosts : Hosts x branch m h tr) (hraised : h.result = .ok (.error e))
      (hown : ∀ child, Begun.Bears {} tr child → ¬ child.Fails e) :
      Stems x (.method m.name e) branch
  | passed {branch child : Branch} {m : Method} {h : HandlerEnd} {tr : Trace} {e : CallError}
      {origin : Origin} (hhosts : Hosts x branch m h tr) (hchild : Begun.Bears {} tr child)
      (hstems : Stems x origin child) (htold : child.Fails e)
      (hpassed : h.result = .ok (.error e)) : Stems x origin branch
  | awaited {m : Method} {o : JobOptions} {args cleaned : List Json} {caller : Option Token}
      {id : Nat} {ending : Except CallError JobSnapshot} {before after : Trace} {origin : Origin}
      {result : Except PanicPayload (Except CallError Json)}
      (hm : x.registry.method? m.name = some m) (hjob : m.job = some o)
      (hclean : Accepts.clean m.accepts args = .ok cleaned)
      (hguarded : Guarded id before after caller)
      (hruns : (x.callWait m.name args caller).Runs (submission x m o args cleaned (.ok id) ::
        (before ++ ⟨.awaitJob id none, ending⟩ :: after)) result)
      (hstems : Stems x origin (.job id m.name cleaned args ending)) :
      Stems x origin (.call m.name args caller result)
  | refused {branch : Branch} {e : CallError} (h : Refuses x branch e) :
      Stems x (.refusal e) branch

/-- What a routine ends with is settled by the replies it gets. -/
theorem Routine.Runs.unique {α : Type} {r : Routine α} {tr : Trace}
    {e e' : Except PanicPayload α} (h : r.Runs tr e) (h' : r.Runs tr e') : e = e' := by
  induction r generalizing tr with
  | done a => exact h.2.trans h'.2.symm
  | act action next ih =>
    rcases h with ⟨p, hp, htr, he⟩ | ⟨reply, rest, htr, hrest⟩
    · rcases h' with ⟨p', hp', -, he'⟩ | ⟨reply', rest', htr', -⟩
      · obtain rfl : p = p' := by simpa [hp] using hp'
        exact he.trans he'.symm
      · cases htr.symm.trans htr'
    · rcases h' with ⟨p', -, htr', -⟩ | ⟨reply', rest', htr', hrest'⟩
      · cases htr.symm.trans htr'
      · cases htr.symm.trans htr'
        exact ih reply hrest hrest'

theorem attributed_error (name : String) (e : CallError) :
    attributed name (.error e) = .error (Origin.method name e).told := by
  cases e <;> rfl

/-- The end of a job that nobody has asked to stop keeps what the body has ended with. -/
theorem JobEntry.outcome_settled {β : Type} {e : JobEntry β} (h : e.cancelled = false) (now : Nat)
    (result : Except CallError Json) : (e.settled now result).snapshot.outcome = result := by
  cases result with
  | ok v => rfl
  | error error =>
    cases error <;>
      simp [JobEntry.settled, h, JobTable.settled, endState, endSnapshot, JobSnapshot.outcome]

theorem Branch.told?_settled {e : JobEntry JobBody} (h : e.cancelled = false) (now id : Nat)
    (name : String) (args raw : List Json) (result : Except CallError Json) :
    (job id name args raw (.ok (e.settled now result).snapshot)).told? = some result :=
  congrArg some (JobEntry.outcome_settled h now result)

variable {x : Exchange} {m : Method} {context : CallContext} {args : List Json} {trh tr : Trace}
  {h : HandlerEnd} {branch : Branch} {origin : Origin} {e : CallError}

theorem Handled.ends (hh : Handled x m context args trh h tr) :
    HandlerEnds m context args trh h := by
  cases hh with
  | polled _ hends => exact hends
  | onThread hm _ => exact .onThread hm

theorem Hosts.told? (hh : Hosts x branch m h tr) :
    branch.told? = (h.answer m.name).toOption := by
  cases hh with
  | @call _ _ _ _ _ _ _ _ result hm hjob hclean hhandled hruns =>
    have hresult : result = h.answer m.name := hruns.unique
      ((Exchange.runs_callWait hm hjob hclean).mpr ⟨_, _, _, hhandled.ends, rfl, rfl⟩)
    rw [← hresult]
    cases result <;> rfl
  | @launch _ _ _ _ _ _ _ result hm hjob hclean hhandled hruns =>
    have hresult : result = h.answer m.name := hruns.unique
      ((Exchange.runs_call hm hjob hclean).mpr ⟨_, _, _, hhandled.ends, rfl, rfl⟩)
    rw [← hresult]
    cases result <;> rfl
  | @job _ args raw trh _ _ e result now hm hhandled hruns hkept =>
    have htold : (x.jobOutcome e.id (.method m.name args raw)).Runs
        (trh ++ h.epilogue m.name raw) (h.answer m.name) := by
      simp only [Exchange.jobOutcome, hm]
      exact Exchange.runs_execute_attribute.mpr ⟨_, _, hhandled.ends, rfl, rfl⟩
    rw [← hruns.unique htold]
    exact Branch.told?_settled hkept now _ _ _ _ _

theorem Hosts.fails (hh : Hosts x branch m h tr) (herror : h.result = .ok (.error e)) :
    branch.Fails (Origin.method m.name e).told := by
  rw [Branch.Fails, hh.told?, h.answer_eq, herror, ← attributed_error]
  rfl

theorem Hosts.result_of_fails (hh : Hosts x branch m h tr) (hfails : branch.Fails e) :
    ∃ raised, h.result = .ok (.error raised) := by
  rw [Branch.Fails, hh.told?, h.answer_eq] at hfails
  cases hresult : h.result with
  | error p =>
    rw [hresult] at hfails
    cases hfails
  | ok result =>
    cases result with
    | ok v =>
      rw [hresult] at hfails
      cases Option.some.inj hfails
    | error raised => exact ⟨raised, rfl⟩

theorem Routine.OnlyTells.eq_of_runs {α : Type} {r : Routine α} {a : α} (h : r.OnlyTells a)
    {result : Except PanicPayload α} (hruns : r.Runs tr result) : result = .ok a := by
  cases h with
  | atOnce => exact hruns.2
  | numbered parent =>
    rcases hruns with ⟨p, hp, -⟩ | ⟨reply, rest, -, hdone⟩
    · cases hp
    · exact hdone.2

theorem Refuses.fails (hr : Refuses x branch e) : branch.Fails e := by
  cases hr with
  | call h hruns =>
    cases h.onlyTells.eq_of_runs hruns
    rfl
  | launch h hruns =>
    cases h.onlyTells.eq_of_runs hruns
    rfl
  | job now hm hruns hkept =>
    simp only [Exchange.jobOutcome, hm] at hruns
    cases Except.ok.inj hruns.2
    exact Branch.told?_settled hkept now _ _ _ _ _
  | timedOut now lock => rfl

theorem Refuses.ne_failed (hr : Refuses x branch e) (text : String) : e ≠ .failed text := by
  rintro rfl
  cases hr with
  | call h _ =>
    cases h with
    | notJob _ _ hentrance => cases hentrance
  | launch h _ =>
    cases h with
    | notJob _ _ hentrance => cases hentrance

/-- No error goes up as a mere failure. -/
theorem Stems.told_ne_failed (hs : Stems x origin branch) (text : String) :
    origin.told ≠ .failed text := by
  induction hs with
  | @raised _ m _ _ e => cases e <;> simp [Origin.told]
  | passed _ _ _ _ _ ih => exact ih
  | awaited _ _ _ _ _ _ ih => exact ih
  | refused h => exact h.ne_failed text

theorem Origin.told_method {name : String} (h : ∀ text, e ≠ .failed text) :
    (Origin.method name e).told = e := by
  cases e with
  | failed text => exact absurd rfl (h text)
  | _ => rfl

/-- Whoever makes the call at the top of a tree is told what its origin has raised: a failure under
the name of the method that failed, and any other error as it was, however many calls and jobs have
passed it on. -/
theorem Stems.fails (hs : Stems x origin branch) : branch.Fails origin.told := by
  induction hs with
  | raised hhosts hraised _ => exact hhosts.fails hraised
  | @passed _ _ m _ _ e _ hhosts _ hstems htold hpassed ih =>
    cases Option.some.inj (htold.symm.trans ih)
    have hfails := hhosts.fails hpassed
    rwa [Origin.told_method hstems.told_ne_failed] at hfails
  | @awaited m o args cleaned caller id ending before after _ result hm hjob hclean hguarded
      hruns _ ih =>
    have hresult : result = .ok (Except.bind ending JobSnapshot.outcome) := hruns.unique
      ((runs_callWait_job hm hjob hclean).mpr
        (.inr ⟨id, ending, before, after, hguarded, rfl, rfl⟩))
    rw [hresult]
    exact ih
  | refused h => exact h.fails

/-- Whatever error a branch has come to, or what a thread branches into, has an origin. -/
def Branch.Explained (x : Exchange) : Branch → Prop
  | thread name args context outcome => ∃ tr e, (x.work (.thread name args context)).Runs tr e ∧
      outcome = .ofAttempt e ∧ ∀ child error, Begun.Bears {} tr child → child.Fails error →
        ∃ origin, Stems x origin child
  | branch => ∀ error, branch.Fails error → ∃ origin, Stems x origin branch

theorem Branch.Explained.stems (h : branch.Explained x) (hfails : branch.Fails e) :
    ∃ origin, Stems x origin branch := by
  cases branch with
  | thread => cases hfails
  | _ => exact h e hfails

theorem Begun.Bears.append {b : Begun} (h : b.Bears tr branch) (more : Trace) :
    b.Bears (tr ++ more) branch := by
  induction tr generalizing b with
  | nil => exact h.elim
  | cons step rest ih => exact h.imp_right ih

theorem HandlerEnds.handled (hends : HandlerEnds m context args trh h)
    (hbranches : ∀ child, Begun.Bears {} trh child → child.Explained x) :
    ∃ tr, Handled x m context args trh h tr ∧ ∀ child error, Begun.Bears {} tr child →
      child.Fails error → ∃ origin, Stems x origin child := by
  cases hm : m.blocking with
  | false =>
    exact ⟨trh, .polled hm hends, fun child _ hchild hfails =>
      (hbranches child hchild).stems hfails⟩
  | true =>
    cases hends with
    | called hm' => cases hm.symm.trans hm'
    | polled hm' => cases hm.symm.trans hm'
    | @onThread task outcome =>
      have hjoined : Begun.Bears {}
          [⟨.spawn (.thread m.name args context), task⟩, ⟨.join task, outcome⟩]
          (.thread m.name args context outcome) := .inr (.inl (.thread outcome List.mem_cons_self))
      obtain ⟨tr, e, hruns, rfl, hstems⟩ := hbranches _ hjoined
      exact ⟨tr, .onThread hm hruns, hstems⟩

/-- A handler passes an error on, or it has raised it. -/
theorem Hosts.stems (hh : Hosts x branch m h tr)
    (hbranches : ∀ child error, Begun.Bears {} tr child → child.Fails error →
      ∃ origin, Stems x origin child) (hfails : branch.Fails e) :
    ∃ origin, Stems x origin branch := by
  obtain ⟨raised, hresult⟩ := hh.result_of_fails hfails
  by_cases hpassed : ∃ child, Begun.Bears {} tr child ∧ child.Fails raised
  · obtain ⟨child, hchild, htold⟩ := hpassed
    obtain ⟨origin, hstems⟩ := hbranches child raised hchild htold
    exact ⟨origin, .passed hh hchild hstems htold hresult⟩
  · exact ⟨_, .raised hh hresult fun child hchild htold => hpassed ⟨child, hchild, htold⟩⟩

theorem Happens.explained (hnames : ∀ name m, x.registry.method? name = some m → m.name = name)
    (h : Happens x branch) : branch.Explained x := by
  induction h with
  | @call name args caller tr result hruns hanswered _ ih =>
    intro error hfails
    cases hm : x.registry.method? name with
    | none => exact ⟨_, .refused (.call (.unknown hm) hruns)⟩
    | some m =>
      cases hclean : Accepts.clean m.accepts args with
      | error errors => exact ⟨_, .refused (.call (.rejected hm nofun hclean) hruns)⟩
      | ok cleaned =>
        obtain rfl := hnames name m hm
        cases hjob : m.job with
        | none =>
          obtain ⟨token, trh, h, hends, rfl, -⟩ := (Exchange.runs_callWait hm hjob hclean).mp hruns
          obtain ⟨tr, hhandled, hstems⟩ := hends.handled fun child hchild =>
            ih child (.inr (.inr (hchild.append _)))
          exact (Hosts.call hm hjob hclean hhandled hruns).stems hstems hfails
        | some o =>
          rcases (runs_callWait_job hm hjob hclean).mp hruns with
            ⟨refusal, rfl, -⟩ | ⟨id, ending, before, after, hguarded, rfl, rfl⟩
          · exact (hanswered _ List.mem_cons_self).elim
          · have hawaited : Begun.Bears {} (submission x m o args cleaned (.ok id) ::
                (before ++ ⟨.awaitJob id none, ending⟩ :: after))
                (.job id m.name cleaned args ending) := by
              have htold : Begun.Told { jobs := [(id, .method m.name cleaned args)] }
                  ⟨.awaitJob id none, ending⟩ (.job id m.name cleaned args ending) :=
                .job ending List.mem_cons_self
              cases caller with
              | none =>
                obtain ⟨rfl, rfl⟩ := hguarded
                exact .inr (.inl htold)
              | some caller =>
                obtain ⟨done, task, rfl, rfl⟩ := hguarded
                exact .inr (.inr (.inr (.inl htold)))
            obtain ⟨origin, hstems⟩ := (ih _ hawaited).stems hfails
            exact ⟨origin, .awaited hm hjob hclean hguarded hruns hstems⟩
  | @launch name args tr result hruns hanswered _ ih =>
    intro error hfails
    cases hm : x.registry.method? name with
    | none => exact ⟨_, .refused (.launch (.unknown hm) hruns)⟩
    | some m =>
      cases hclean : Accepts.clean m.accepts args with
      | error errors => exact ⟨_, .refused (.launch (.rejected hm nofun hclean) hruns)⟩
      | ok cleaned =>
        obtain rfl := hnames name m hm
        cases hjob : m.job with
        | none =>
          obtain ⟨token, trh, h, hends, rfl, -⟩ := (Exchange.runs_call hm hjob hclean).mp hruns
          obtain ⟨tr, hhandled, hstems⟩ := hends.handled fun child hchild =>
            ih child (.inr (.inr (hchild.append _)))
          exact (Hosts.launch hm hjob hclean hhandled hruns).stems hstems hfails
        | some o =>
          obtain ⟨reply, rfl, rfl⟩ := (runs_call_job hm hjob hclean).mp hruns
          cases reply with
          | error refusal => exact (hanswered _ List.mem_cons_self).elim
          | ok id => cases Option.some.inj hfails
  | @thread name args context tr e hruns _ _ ih =>
    exact ⟨tr, e, hruns, rfl, fun child _ hchild hfails => (ih child hchild).stems hfails⟩
  | @job e name args raw tr result now hruns _ _ hkept ih =>
    intro error hfails
    cases hm : x.registry.method? name with
    | none => exact ⟨_, .refused (.job now hm hruns hkept)⟩
    | some m =>
      obtain rfl := hnames name m hm
      have hexec := hruns
      simp only [Exchange.jobOutcome, hm] at hexec
      obtain ⟨trh, h, hends, rfl, -⟩ := Exchange.runs_execute_attribute.mp hexec
      obtain ⟨tr, hhandled, hstems⟩ := hends.handled fun child hchild => ih child (hchild.append _)
      exact (Hosts.job now hm hhandled hruns hkept).stems hstems hfails
  | timedOut now lock => exact fun _ _ => ⟨_, .refused (.timedOut now lock)⟩

theorem Happens.ne_failed (hnames : ∀ name m, x.registry.method? name = some m → m.name = name)
    (h : Happens x branch) (hfails : branch.Fails e) (text : String) : e ≠ .failed text := by
  obtain ⟨origin, hstems⟩ := (h.explained hnames).stems hfails
  obtain rfl : e = origin.told :=
    Except.error.inj (Option.some.inj (hfails.symm.trans hstems.fails))
  exact hstems.told_ne_failed text

end Switchboard
