import Switchboard.Proofs.Hub.Calm
import Switchboard.Proofs.Hub.Descent

namespace Switchboard

namespace Hub

variable {s s' : Hub} {h : Chronicle} {k : Nat}

/-- The task is there or done, and no timer for a lock that could be taken away. -/
structure Stays (s : Hub) (k : Nat) : Prop where
  numbered : k < s.nextNumber
  there : (∃ t ∈ s.tasks, t.id = k) ∨ ∃ outcome, (k, outcome) ∈ s.ended
  untimed : ∀ timer ∈ s.lockTimers, timer.2 ≠ k

namespace Stays

theorem of_bare (hs : s.Stays k) (hbare : s'.bare = s.bare) (hended : s'.ended = s.ended) :
    s'.Stays k where
  numbered := Nat.lt_of_lt_of_eq hs.numbered (nextNumber_of_bare hbare).symm
  there := by
    rw [hended]
    refine hs.there.imp_left fun ⟨t, ht, hid⟩ => ?_
    have htasks := congrArg Hub.tasks hbare
    obtain ⟨t', ht', hid', -⟩ := mem_of_bare_eq htasks.symm ht
    exact ⟨t', ht', hid'.trans hid⟩
  untimed := by
    have hbared := congrArg Hub.lockTimers hbare
    have htimers : s'.lockTimers = s.lockTimers := hbared
    rw [htimers]
    exact hs.untimed

theorem spawn (hs : s.Stays k) (routine : Routine Outcome)
    (fallback : Option (Token × Routine Outcome)) : (s.spawn routine fallback).2.Stays k := by
  have hnew : (s.enlist routine fallback).Stays k :=
    { hs with
      numbered := Nat.lt_succ_of_lt hs.numbered
      there := hs.there.imp_left fun ⟨t, ht, hid⟩ => ⟨t, List.mem_append_left _ ht, hid⟩ }
  exact hnew.of_bare (bare_spawn s routine fallback) (ended_spawn s routine fallback)

theorem goOn (hs : s.Stays k) (task : Nat) (routine : Routine Outcome) :
    (s.goOn task routine).Stays k :=
  { hs with
    there := hs.there.imp_left fun ⟨t, ht, hid⟩ => by
      obtain ⟨t', ht', hid', -⟩ := exists_goOn ht task routine
      exact ⟨t', ht', hid'.trans hid⟩ }

theorem resume (hs : s.Stays k) (task : Nat) (routine : Routine Outcome) :
    (s.resume task routine).Stays k :=
  (hs.goOn task routine).of_bare (bare_resume s task routine) (ended_resume s task routine)

theorem dropTask (hs : s.Stays k) {task : Nat} (hne : task ≠ k) : (s.dropTask task).Stays k :=
  { hs with
    there := hs.there.imp_left fun ⟨t, ht, hid⟩ =>
      ⟨t, List.mem_filter.mpr ⟨ht, by simpa [hid] using hne.symm⟩, hid⟩ }

theorem finish (hs : s.Stays k) (task : Nat) (outcome : Outcome) :
    (s.finishTask task outcome).Stays k := by
  have hdone : Stays { s.dropTask task with ended := (task, outcome) :: s.ended } k := by
    by_cases hk : task = k
    · exact { hs with there := .inr ⟨outcome, hk ▸ List.mem_cons_self⟩ }
    · have hdropped := hs.dropTask hk
      exact { hdropped with
        there := hdropped.there.imp_right fun ⟨o, ho⟩ => ⟨o, List.mem_cons_of_mem _ ho⟩ }
  exact hdone.of_bare (bare_wakeAt _ _) (ended_wakeAt _ _)

theorem imprint (hs : s.Stays k) (task : Nat) (action : Action)
    (next : action.Reply → Routine Outcome) : (s.imprint task action next).Stays k := by
  cases action with
  | newToken parent => exact { hs with numbered := Nat.lt_succ_of_lt hs.numbered }
  | spawn work => exact hs.spawn _ none
  | ask r | report r =>
    simp only [Hub.imprint]
    split
    next => exact { hs with }
    next => exact hs
  | cancel token => exact { hs with }
  | _ => exact hs

theorem act (hs : s.Stays k) (task : Nat) : (s.act task).Stays k := by
  unfold Hub.act
  split
  next => exact hs
  next t _ =>
    split
    next => exact hs
    next =>
      cases t.routine with
      | done outcome => exact hs.finish task outcome
      | act action next =>
        refine ((hs.imprint task action next).goOn task _).of_bare (bare_run_one s task action next)
          ?_
        exact (ended_run_one s task action next).trans (ended_imprint s task action next).symm

theorem apply (hs : s.Stays k) (effect : JobEffect JobBody) : (s.apply effect).Stays k := by
  cases effect with
  | publish event | log record => exact { hs with }
  | reveal snapshot =>
    have hshown : Stays { s with board := s.board.reveal snapshot } k := { hs with }
    exact hshown.of_bare (bare_wakeWatchers _ _) (ended_wakeAt _ _)
  | conceal id =>
    have hshown : Stays { s with board := s.board.conceal id } k := { hs with }
    exact hshown.of_bare (bare_wakeWatchers _ _) (ended_wakeAt _ _)
  | start id droppable body => exact hs.spawn _ _
  | armTimer id ms =>
    have hspawned := hs.spawn (Exchange.runLockTimer id ms) none
    exact { hspawned with
      untimed := List.forall_mem_cons.mpr ⟨Nat.ne_of_gt hs.numbered, hspawned.untimed⟩ }
  | disarmTimer id =>
    simp only [Hub.apply]
    split
    next => exact hs
    next task hfound =>
      obtain ⟨before, later, heq, -⟩ := List.lookup_eq_some_iff.mp hfound
      have hdropped := hs.dropTask (hs.untimed (id, task) (by rw [heq]; simp))
      exact { hdropped with
        untimed := fun timer ht => hs.untimed timer (List.mem_filter.mp ht).1 }
  | cancel id =>
    have hfired : Stays { s with fired := .job id :: s.fired } k := { hs with }
    exact hfired.of_bare (bare_cancel s _) (ended_cancel s _)

theorem adopt (hs : s.Stays k) (t : JobTable JobBody) : (s.adopt t).Stays k := by
  have hfold : ∀ (effects : List (JobEffect JobBody)) (s : Hub), s.Stays k →
      (effects.foldl Hub.apply s).Stays k := by
    intro effects
    induction effects with
    | nil => exact fun _ hs => hs
    | cons effect rest ih => exact fun s hs => ih (s.apply effect) (hs.apply effect)
  exact hfold t.effects _ { hs with }

theorem handle (hs : s.Stays k) (l : Letter) : (s.handle l).Stays k := by
  cases l with
  | report r =>
    simp only [Hub.handle]
    split
    next => exact hs.adopt _
    next => exact hs
  | request r task next =>
    have hresponded : (s.respond r).1.Stays k := by
      cases r with
      | submit job | abort id => exact hs.adopt _
      | shutdown =>
        have hwritten : (s.write .info "Stopping job manager").Stays k := { hs with }
        exact hwritten.adopt _
      | get id | watch id | list => exact hs
      | subscribe => exact { hs with }
    cases hkept : s.kept with
    | false =>
      simp only [Hub.handle, hkept, Bool.false_eq_true, if_false]
      exact hs.resume task _
    | true =>
      have hanswered : (s.answer r task next).Stays k := hresponded.resume task _
      rw [handle_request hkept]
      split
      next =>
        have hclosed : Stays { s.answer r task next with
            kept := false
            board := (s.answer r task next).board.close
            jobEvents := (s.answer r task next).jobEvents.close } k := { hanswered with }
        exact hclosed.of_bare (bare_retire _) (ended_wakeAt _ _)
      next => exact hanswered

theorem does (hs : s.Stays k) (hfall : ∀ task, s.does (.fall task) = s) (stroke : Stroke) :
    (s.does stroke).Stays k := by
  have hfirst : ∀ p, (s.handleFirst p).Stays k := by
    intro p
    unfold handleFirst
    split
    next => exact hs
    next letter _ =>
      have hopened : Stays { s with letters := s.letters.eraseP p } k := { hs with }
      exact hopened.handle letter
  cases stroke with
  | begin routine => exact hs.spawn routine none
  | act task => exact hs.act task
  | fall task => exact (hfall task).symm ▸ hs
  | request => exact hfirst Letter.isRequest
  | report => exact hfirst Letter.isReport
  | around other | take receiver | drop receiver => exact { hs with }

theorem plays (hs : s.Stays k) (hsound : s.Sound h) (strokes : List Stroke)
    (hcalm : (s.retell h strokes).Calm)
    (hclients : ∀ routine, .begin routine ∈ strokes → routine.Lawful [] .idle) :
    (s.plays strokes).Stays k := by
  induction strokes generalizing s h with
  | nil => exact hs
  | cons stroke rest ih =>
    have hnow : h.Calm := hcalm.earlier (subset_retell s h (stroke :: rest))
    have hsound' : (s.does stroke).Sound _ := hsound.does fun routine heq =>
      hclients routine (heq ▸ List.mem_cons_self)
    exact ih (hs.does (fun task => (hsound.does_fall hnow task).1) stroke) hsound' hcalm
      fun routine hmem => hclients routine (List.mem_cons_of_mem _ hmem)

end Stays

/-- Whatever a client begins stays until it is done. -/
theorem Sound.stays_begin (hs : s.Sound h) (routine : Routine Outcome) :
    (s.does (.begin routine)).Stays s.nextNumber := by
  obtain ⟨-, dones, stage, ha⟩ := hs
  have hnew : (s.enlist routine none).Stays s.nextNumber :=
    { numbered := Nat.lt_succ_self _
      there := .inl ⟨_, List.mem_append_right _ List.mem_cons_self, rfl⟩
      untimed := fun timer ht => Nat.ne_of_lt (ha.timers timer ht).1 }
  exact hnew.of_bare (bare_spawn s routine none) (ended_spawn s routine none)

theorem stays_of_calm {b : Builder} (hlawful : b.registry.Lawful) {before after : List Stroke}
    {routine : Routine Outcome}
    (hclients : ∀ routine', .begin routine' ∈ before ++ .begin routine :: after →
      routine'.Lawful [] .idle)
    (hcalm : (b.build.chronicle (before ++ .begin routine :: after)).Calm) :
    (b.build.plays (before ++ .begin routine :: after)).Stays
      (b.build.plays before).nextNumber := by
  have hsound := sound hlawful fun routine' hmem =>
    hclients routine' (List.mem_append_left _ hmem)
  have hroutine := hclients routine (List.mem_append_right _ List.mem_cons_self)
  rw [chronicle, retell_append] at hcalm
  rw [plays_append]
  have hbegun : ((b.build.plays before).does (.begin routine)).Sound _ :=
    hsound.does fun routine' heq => by
      cases heq
      exact hroutine
  exact (hsound.stays_begin routine).plays hbegun after hcalm fun routine' hmem =>
    hclients routine' (List.mem_append_right _ (List.mem_cons_of_mem _ hmem))

/-- What somebody waits for has not come: the other task is not done, or the job is in the table and
has not ended. -/
def Awaits (s : Hub) : Action → Prop
  | .join other => ∀ outcome, (other, outcome) ∉ s.ended
  | .awaitJob id none => 0 < id → id < s.jobs.nextId →
    ∃ shown, s.jobs.snapshot? id = some shown ∧ shown.state.isTerminal = false
  | _ => True

theorem Books.awaits {x : Exchange} {w : Workshop JobBody} (hb : s.Books x w) {task : Nat}
    {action : Action} {next : action.Reply → Routine Outcome}
    (hstuck : (s.step task action next).2 = none) : s.Awaits action := by
  cases action with
  | join other =>
    intro outcome hmem
    have hnone : s.ended.lookup other = none := Option.map_eq_none_iff.mp hstuck
    simpa using List.lookup_eq_none_iff.mp hnone _ hmem
  | awaitJob id deadline =>
    cases deadline with
    | some time => trivial
    | none =>
      intro hlow hhigh
      have hnone : s.board.ending? id = none := by
        cases hending : s.board.ending? id with
        | none => rfl
        | some ending => simp [step, hending] at hstuck
      rw [← hb.table] at hhigh ⊢
      exact hb.exhibits.awaited hlow hhigh hnone
  | _ => trivial

end Hub

/-- How a method is called from outside: so that a job is only submitted, or for the result. -/
inductive Summons where
  | call (name : String) (args : List Json)
  | callWait (name : String) (args : List Json)

namespace Summons

def routine (x : Exchange) : Summons → Routine Outcome
  | call name args => (x.call name args).outcome
  | callWait name args => (x.callWait name args none).outcome

def branch (result : Except PanicPayload (Except CallError Json)) : Summons → Branch
  | call name args => .launch name args result
  | callWait name args => .call name args none result

variable {x : Exchange} {e : CallError}

theorem lawful_routine (hx : x.registry.Lawful) (summons : Summons) :
    (summons.routine x).Lawful [] .idle := by
  cases summons with
  | call name args => exact (Exchange.lawful_call hx name args).bind_of_forall fun _ _ => .done _
  | callWait name args =>
    have hcalled : (x.callWait name args none).Lawful [] (x.stageOf name args none) :=
      Exchange.lawful_callWait hx name args nofun
    exact hcalled.bind_of_forall fun _ _ => .done _

theorem modest_routine (hx : x.registry.Common) (summons : Summons) :
    (summons.routine x).Modest := by
  cases summons with
  | call name args => exact (Exchange.common_call hx name args).modest.bind fun _ => trivial
  | callWait name args =>
    exact (Exchange.common_callWait hx name args none).modest.bind fun _ => trivial

def Tells (x : Exchange) (summons : Summons) (outcome : Outcome) : Prop :=
  ∃ result, Happens x (summons.branch result) ∧ outcome = .ofAttempt (result.map .ofResult)

theorem heeds_routine (hx : x.registry.Common) (summons : Summons) (b : Begun) :
    Heeds x (summons.Tells x) b none (summons.routine x) := by
  cases summons with
  | call name args =>
    exact .outcome (Exchange.common_call hx name args) fun _ _ hruns htr hbears =>
      .launch hruns htr hbears
  | callWait name args =>
    exact .outcome (Exchange.common_callWait hx name args none) fun _ _ hruns htr hbears =>
      .call hruns htr hbears

theorem Tells.happens {summons : Summons} (h : summons.Tells x (.failed e)) :
    Happens x (summons.branch (.ok (.error e))) := by
  obtain ⟨result, hhappens, heq⟩ := h
  cases result with
  | error p => cases heq
  | ok result =>
    cases result with
    | ok v => cases heq
    | error e' =>
      cases heq
      exact hhappens

/-- What an origin has the caller told. -/
theorem result_of_stems {origin : Origin} {summons : Summons}
    {result : Except PanicPayload (Except CallError Json)}
    (h : Stems x origin (summons.branch result)) : result = .ok (.error origin.told) := by
  have hfails := h.fails
  cases summons <;> cases result with
  | error p => cases hfails
  | ok result => exact congrArg Except.ok (Option.some.inj hfails)

end Summons

namespace Hub

/-- What is known of a call from outside that is made by a task, once a run has come so far. -/
structure Attributes (s : Hub) (x : Exchange) (summons : Summons) (task : Nat) : Prop where
  happened : ∀ outcome, (task, outcome) ∈ s.ended → summons.Tells x outcome
  origin : ∀ e, (task, .failed e) ∈ s.ended →
    ∃ origin, Stems x origin (summons.branch (.ok (.error e)))
  failed : ∀ name text result, Stems x (.method name (.failed text)) (summons.branch result) →
    result = .ok (.error (.call name text))
  unaltered : ∀ name e result, (∀ text, e ≠ .failed text) →
    Stems x (.method name e) (summons.branch result) → result = .ok (.error e)
  refused : ∀ e result, Stems x (.refusal e) (summons.branch result) → result = .ok (.error e)
  named : ∀ text, (task, .failed (.failed text)) ∉ s.ended
  below : ∀ branch, Happens x branch → ∀ e, branch.Fails e →
    (∃ origin, Stems x origin branch) ∧ (∀ origin, Stems x origin branch → e = origin.told) ∧
      ∀ text, e ≠ .failed text
  /-- Where nothing is left to do, the call has ended, or it waits for something that has not
  come. -/
  returns : s.Quiet → (∃ outcome, (task, outcome) ∈ s.ended) ∨
    ∃ t ∈ s.tasks, t.id = task ∧ ∃ action next, t.routine = .act action next ∧
      (s.step task action next).2 = none ∧ s.Awaits action

/-- As long as no submission is folded into another job and nothing is aborted or stopped, whoever
calls a method from outside is told of the error that was raised where the tree of calls ends,
however many calls, threads and jobs have passed it on: of a failure under the name of the method
that has failed, and of any other error as it was. -/
theorem failures_are_attributed {b : Builder} (hmade : b.registry.Made)
    (hlawful : b.registry.Lawful) (hcommon : b.registry.Common) (summons : Summons)
    {before after : List Stroke}
    (hclients : ∀ routine, .begin routine ∈ before ++ after →
      routine.Lawful [] .idle ∧ routine.Modest)
    (hcalm : (b.build.chronicle
      (before ++ .begin (summons.routine b.build.exchange) :: after)).Calm) :
    (b.build.plays (before ++ .begin (summons.routine b.build.exchange) :: after)).Attributes
      b.build.exchange summons (b.build.plays before).nextNumber := by
  have hnames : ∀ name m, b.build.exchange.registry.method? name = some m → m.name = name :=
    fun _ _ hm => hmade.name_of hm
  have hall : ∀ routine,
      .begin routine ∈ before ++ .begin (summons.routine b.build.exchange) :: after →
        routine.Lawful [] .idle ∧ routine.Modest := by
    intro routine hmem
    rcases List.mem_append.mp hmem with hmem | hmem
    · exact hclients routine (List.mem_append_left _ hmem)
    · rcases List.mem_cons.mp hmem with heq | hmem
      · cases heq
        exact ⟨summons.lawful_routine hlawful, summons.modest_routine hcommon⟩
      · exact hclients routine (List.mem_append_right _ hmem)
  obtain ⟨w, begun, d, haim, hs⟩ := staffed_of_calm hlawful hcommon hall hcalm
    (summons.heeds_routine (x := b.build.exchange) hcommon)
  have htells : ∀ outcome, ((b.build.plays before).nextNumber, outcome) ∈
      (b.build.plays (before ++ .begin (summons.routine b.build.exchange) :: after)).ended →
        summons.Tells b.build.exchange outcome := by
    intro outcome hmem
    have hmet := hs.crew.ended _ hmem
    rw [haim] at hmet
    exact hmet
  have hbelow : ∀ branch, Happens b.build.exchange branch → ∀ e, branch.Fails e →
      (∃ origin, Stems b.build.exchange origin branch) ∧
        (∀ origin, Stems b.build.exchange origin branch → e = origin.told) ∧
        ∀ text, e ≠ .failed text := fun branch hhappens e hfails =>
    ⟨(hhappens.explained hnames).stems hfails,
      fun _ hstems => Except.error.inj (Option.some.inj (hfails.symm.trans hstems.fails)),
      hhappens.ne_failed hnames hfails⟩
  have hfails : ∀ e, (summons.branch (.ok (.error e))).Fails e := fun e => by
    cases summons <;> rfl
  refine ⟨htells, fun e hmem => ?_, fun _ _ _ hstems => Summons.result_of_stems hstems,
    fun name e result hother hstems => ?_, fun _ _ hstems => Summons.result_of_stems hstems,
    fun text hmem => ?_, hbelow, fun hquiet => ?_⟩
  · exact (hbelow _ (htells _ hmem).happens e (hfails e)).1
  · rw [Summons.result_of_stems hstems, Origin.told_method hother]
  · exact (hbelow _ (htells _ hmem).happens _ (hfails _)).2.2 text rfl
  · have hstays := stays_of_calm hlawful (fun routine hmem => (hall routine hmem).1) hcalm
    refine hstays.there.symm.imp_right fun ⟨t, ht, hid⟩ => ?_
    obtain ⟨action, next, hroutine, -, hstuck⟩ := hquiet.stuck t ht
    rw [hid] at hstuck
    exact ⟨t, ht, hid, action, next, hroutine, hstuck, hs.books.awaits hstuck⟩

def relay (name : String) (script : Script) : Method where
  name
  body context args := { run := script.run (.method context) args }

def front : Method := relay "front" [.call (.str "work") (.arr [])]

def leaf : Method := relay "leaf" [.fail "boom"]

def work : Method :=
  { relay "work" [.call (.str "leaf") (.arr [])] with
    blocking := true
    job := some {} }

/-- The first method calls the last one, which calls the second one, which fails. -/
def relays : Builder where
  registry := { methods := [("front", front), ("leaf", leaf), ("work", work)] }

theorem made_relays : relays.registry.Made := by
  have hfront : ({} : Registry).addMethod front = .ok { methods := [("front", front)] } := by rfl
  have hleaf : ({ methods := [("front", front)] } : Registry).addMethod leaf =
      .ok { methods := [("front", front), ("leaf", leaf)] } := by rfl
  have hwork : ({ methods := [("front", front), ("leaf", leaf)] } : Registry).addMethod work =
      .ok relays.registry := by rfl
  exact .method (.method (.method .empty hfront) hleaf) hwork

theorem scripted_relays : relays.registry.Scripted where
  methods name m hm := by
    obtain ⟨before, later, heq, -⟩ := List.lookup_eq_some_iff.mp hm
    have hmem : (name, m) ∈ relays.registry.methods := heq ▸ by simp
    simp only [relays, List.mem_cons, List.not_mem_nil, or_false] at hmem
    rcases hmem with heq | heq | heq <;> cases heq
    all_goals exact ⟨_, fun _ _ => rfl⟩
  hooks event hook hmem := by cases hmem

/-- The job is taken in and waited for, the thread is done, and the end of the job is reported and
shown. -/
def relayed : List Stroke :=
  [.act 0, .act 0, .act 0, .act 0, .request, .act 0, .act 0, .act 2,
    .act 5, .act 5, .act 5, .act 5, .act 5, .act 2, .act 2, .act 2, .act 2, .report,
    .act 0, .act 0, .act 0, .act 0]

def relayedCall : List Stroke :=
  .begin ((Summons.callWait "front" []).routine relays.build.exchange) :: relayed

theorem chronicle_relayedCall : relays.build.chronicle relayedCall =
    [.armed 0 ⟨4, .root 1, 1, .root 3⟩, .answered 0 1 true, .called 0 (.root 1)] := by
  decide +kernel

theorem calm_relayedCall : (relays.build.chronicle relayedCall).Calm := by
  rw [chronicle_relayedCall]
  exact ⟨by simp, by simp, by simp⟩

/-- The caller is told who has failed, though a thread and a job have passed it on. -/
theorem failure_is_attributed_through_relays :
    relays.registry.Made ∧ relays.registry.Lawful ∧ relays.registry.Common ∧
      (∀ routine, .begin routine ∈ [] ++ relayed → routine.Lawful [] .idle ∧ routine.Modest) ∧
      (relays.build.chronicle relayedCall).Calm ∧
      (relays.build.plays relayedCall).Attributes relays.build.exchange (.callWait "front" []) 0 ∧
      (0, .failed (.call "leaf" "boom")) ∈ (relays.build.plays relayedCall).ended ∧
      ∃ origin, Stems relays.build.exchange origin
          (.call "front" [] none (.ok (.error (.call "leaf" "boom")))) ∧
        origin.told = .call "leaf" "boom" := by
  have hclients : ∀ routine, .begin routine ∈ [] ++ relayed →
      routine.Lawful [] .idle ∧ routine.Modest := by
    intro routine hmem
    simp [relayed] at hmem
  have hattributes : (relays.build.plays relayedCall).Attributes relays.build.exchange
      (.callWait "front" []) 0 :=
    @failures_are_attributed relays made_relays scripted_relays.lawful scripted_relays.common
      (.callWait "front" []) [] relayed hclients calm_relayedCall
  have hended : (relays.build.plays relayedCall).ended =
      [(0, .failed (.call "leaf" "boom")), (2, .returned .null),
        (5, .failed (.call "leaf" "boom"))] := by rfl
  have hmem : (0, .failed (.call "leaf" "boom")) ∈ (relays.build.plays relayedCall).ended := by
    rw [hended]
    exact List.mem_cons_self
  obtain ⟨origin, hstems⟩ := hattributes.origin _ hmem
  obtain ⟨-, htold, -⟩ := hattributes.below _ (hattributes.happened _ hmem).happens _ rfl
  exact ⟨made_relays, scripted_relays.lawful, scripted_relays.common, hclients, calm_relayedCall,
    hattributes, hmem, origin, hstems, (htold origin hstems).symm⟩

end Hub

end Switchboard
