import Switchboard.Proofs.Hub.Lives
import Switchboard.Proofs.Jobs.Bodies

namespace Switchboard.Hub

variable {s s' : Hub}

theorem exchange_of_bare (h : s'.bare = s.bare) : s'.exchange = s.exchange := by
  have hexchange := congrArg Hub.exchange h
  exact hexchange

theorem exchange_spawn (s : Hub) (routine : Routine Outcome)
    (fallback : Option (Token × Routine Outcome)) :
    (s.spawn routine fallback).2.exchange = s.exchange :=
  (exchange_of_bare (bare_spawn s routine fallback)).trans rfl

theorem exchange_step (s : Hub) (task : Nat) (action : Action)
    (next : action.Reply → Routine Outcome) :
    (s.step task action next).1.exchange = s.exchange := by
  refine (exchange_of_bare (bare_step s task action next)).trans ?_
  cases action with
  | spawn work => exact exchange_spawn s _ _
  | ask request | report report =>
    simp only [imprint]
    split <;> rfl
  | _ => rfl

theorem exchange_run (fuel : Nat) (s : Hub) (task : Nat) (routine : Routine Outcome) :
    (run fuel s task routine).exchange = s.exchange := by
  induction fuel generalizing s routine with
  | zero => rfl
  | succ fuel ih =>
    cases routine with
    | done outcome => exact (exchange_of_bare (bare_finishTask s task outcome)).trans rfl
    | act action next =>
      have hstep := exchange_step s task action next
      rw [run]
      split
      next s' routine heq =>
        rw [heq] at hstep
        exact (ih (s'.disarm task) routine).trans hstep
      next s' heq =>
        rw [heq] at hstep
        exact hstep

theorem exchange_apply (s : Hub) (effect : JobEffect JobBody) :
    (s.apply effect).exchange = s.exchange := by
  cases effect with
  | publish event | log record => rfl
  | reveal snapshot => exact (exchange_of_bare (bare_wakeWatchers
      { s with board := s.board.reveal snapshot } snapshot.id)).trans rfl
  | conceal id => exact (exchange_of_bare (bare_wakeWatchers
      { s with board := s.board.conceal id } id)).trans rfl
  | start id droppable body => exact exchange_spawn s _ _
  | armTimer id ms => exact exchange_spawn s _ _
  | disarmTimer id =>
    simp only [apply]
    split <;> rfl
  | cancel id => exact (exchange_of_bare (bare_cancel s (.job id))).trans rfl

theorem exchange_adopt (s : Hub) (t : JobTable JobBody) : (s.adopt t).exchange = s.exchange := by
  have hfold : ∀ (effects : List (JobEffect JobBody)) (s : Hub),
      (effects.foldl apply s).exchange = s.exchange := by
    intro effects
    induction effects with
    | nil => exact fun _ => rfl
    | cons effect rest ih => exact fun s => (ih (s.apply effect)).trans (exchange_apply s effect)
  exact hfold t.effects _

theorem exchange_handle (s : Hub) (l : Letter) : (s.handle l).exchange = s.exchange := by
  cases hkept : s.kept with
  | false =>
    cases l with
    | request r task next =>
      simp only [handle, hkept, Bool.false_eq_true, if_false]
      exact (exchange_of_bare (bare_resume s task _)).trans rfl
    | report r => simp only [handle, hkept, Bool.false_eq_true, if_false]
  | true =>
    cases l with
    | request r task next =>
      have hrespond : (s.respond r).1.exchange = s.exchange := by
        cases r with
        | submit job => exact exchange_adopt s _
        | abort id => exact exchange_adopt s _
        | shutdown => exact exchange_adopt (s.write .info "Stopping job manager") _
        | get id | watch id | list | subscribe => rfl
      have hanswer : (s.answer r task next).exchange = s.exchange :=
        (exchange_of_bare (bare_resume _ task _)).trans hrespond
      rw [handle_request hkept]
      split
      next => exact (exchange_of_bare (bare_retire _)).trans hanswer
      next => exact hanswer
    | report r =>
      simp only [handle, hkept, if_true]
      exact exchange_adopt s _

theorem exchange_does (s : Hub) (stroke : Stroke) : (s.does stroke).exchange = s.exchange := by
  have hfirst : ∀ p, (s.handleFirst p).exchange = s.exchange := by
    intro p
    unfold handleFirst
    split
    next => rfl
    next letter _ => exact exchange_handle _ letter
  cases stroke with
  | begin routine => exact exchange_spawn s routine none
  | act task =>
    simp only [does, act]
    split
    next => rfl
    next =>
      split
      next => rfl
      next => exact exchange_run _ _ _ _
  | fall task =>
    simp only [does, fallBack]
    split
    next => rfl
    next =>
      split
      next => exact exchange_run _ _ _ _
      next => rfl
  | request => exact hfirst Letter.isRequest
  | report => exact hfirst Letter.isReport
  | around other | take receiver | drop receiver => rfl

/-- In any run, methods are looked up in the registry that the hub was built with. -/
theorem exchange_plays (s : Hub) (strokes : List Stroke) :
    (s.plays strokes).exchange = s.exchange := by
  induction strokes generalizing s with
  | nil => rfl
  | cons stroke rest ih => exact (ih (s.does stroke)).trans (exchange_does s stroke)

theorem jobs_handle (hs : s.jobs.effects = []) (l : Letter) :
    (s.handle l).jobs = { s.handled l with effects := [] } := by
  have hsame : s.jobs = { s.jobs with effects := [] } := by rw [← hs]
  cases hkept : s.kept with
  | false =>
    cases l with
    | request r task next =>
      simp only [handle, handled, hkept, Bool.false_eq_true, if_false]
      exact (sameKeeping_resume s task _).jobs.trans hsame
    | report r =>
      simp only [handle, handled, hkept, Bool.false_eq_true, if_false]
      exact hsame
  | true =>
    cases l with
    | request r task next =>
      have hrespond : (s.respond r).1.jobs = { s.asked r with effects := [] } := by
        cases r with
        | submit job => exact (adopt_jobs s _).1
        | abort id => exact (adopt_jobs s _).1
        | shutdown => exact (adopt_jobs (s.write .info "Stopping job manager") _).1
        | get id | watch id | list | subscribe => exact hsame
      have hanswer : (s.answer r task next).jobs = { s.asked r with effects := [] } :=
        (sameKeeping_resume _ task _).jobs.trans hrespond
      simp only [handled, hkept, if_true]
      rw [handle_request hkept]
      split
      next => exact (sameKeeping_of_bare (bare_retire _)).jobs.trans hanswer
      next => exact hanswer
    | report r =>
      simp only [handle, handled, hkept, if_true]
      exact (adopt_jobs s _).1

def handedIn (job : Nat × NewJob JobBody) : Nat × JobBody := (job.1, job.2.body)

theorem bodies_request {l : Letter} (h : s.letters.find? Letter.isRequest = some l) :
    (s.handled l).bodies ⊆ s.jobs.bodies ++ (s.takesIn .request).map handedIn := by
  have hold := List.subset_append_left s.jobs.bodies ((s.takesIn .request).map handedIn)
  cases l with
  | report r =>
    have hrequest := List.find?_some h
    cases hrequest
  | request r task next =>
    cases hkept : s.kept with
    | false =>
      simp only [handled, hkept, Bool.false_eq_true, if_false]
      exact hold
    | true =>
      simp only [handled, hkept, if_true]
      cases r with
      | submit job =>
        have htaken : (s.takesIn .request).map handedIn =
            if s.jobs.standIn? job = none then [(s.jobs.nextId, job.body)] else [] := by
          simp only [takesIn, h, hkept, true_and]
          split <;> rfl
        rw [htaken]
        exact s.jobs.bodies_submit s.now job
      | abort id => exact List.Subset.trans (s.jobs.inherits_abort s.now id) hold
      | shutdown => exact List.Subset.trans (s.jobs.inherits_stopAll s.now) hold
      | get id | watch id | list | subscribe => exact hold

theorem inherits_of_report {l : Letter} (h : s.letters.find? Letter.isReport = some l) :
    s.jobs.Inherits (s.handled l) := by
  cases l with
  | request r task next =>
    have hreport := List.find?_some h
    cases hreport
  | report r =>
    cases hkept : s.kept with
    | false =>
      simp only [handled, hkept, Bool.false_eq_true, if_false]
      exact s.jobs.inherits_refl
    | true =>
      simp only [handled, hkept, if_true]
      exact s.jobs.inherits_report s.now r

theorem bodies_handleFirst (hs : s.jobs.effects = []) {p : Letter → Bool}
    {known : List (Nat × JobBody)} (hsame : s.jobs.bodies ⊆ known)
    (h : ∀ l, s.letters.find? p = some l → (s.handled l).bodies ⊆ known) :
    (s.handleFirst p).jobs.bodies ++ (s.wantedFirst p).filterMap JobEffect.started? ⊆ known := by
  unfold handleFirst wantedFirst
  cases hfirst : s.letters.find? p with
  | none => simpa using hsame
  | some l =>
    let opened : Hub := { s with letters := s.letters.eraseP p }
    have hjobs : (opened.handle l).jobs = { s.handled l with effects := [] } := by
      rw [jobs_handle (s := opened) hs, handled_letters]
    -- a handled table is what is left of it and what is made of its effects
    have hsplit : (s.handled l).bodies = (opened.handle l).jobs.bodies ++
        (s.handled l).effects.filterMap JobEffect.started? := by
      simp [hjobs, JobTable.bodies, JobTable.starts]
    rw [← hsplit]
    exact h l hfirst

theorem bodies_does (hs : s.jobs.effects = []) (stroke : Stroke) :
    (s.does stroke).jobs.bodies ++ (s.wantedIn stroke).filterMap JobEffect.started? ⊆
      s.jobs.bodies ++ (s.takesIn stroke).map handedIn := by
  have hidle : ∀ {s' : Hub}, s'.jobs = s.jobs →
      s'.jobs.bodies ++ ([] : List (JobEffect JobBody)).filterMap JobEffect.started? ⊆
        s.jobs.bodies ++ (([] : List (Nat × NewJob JobBody)).map handedIn) := by
    intro s' hjobs
    rw [hjobs]
    exact List.Subset.refl _
  cases stroke with
  | begin routine => exact hidle (sameKeeping_spawn s routine none).jobs
  | act task => exact hidle (sameKeeping_act s task).jobs
  | fall task => exact hidle (sameKeeping_fallBack s task).jobs
  | around other | take receiver | drop receiver => exact hidle rfl
  | request =>
    exact bodies_handleFirst hs (List.subset_append_left _ _) fun _ hl => bodies_request hl
  | report =>
    exact bodies_handleFirst hs (List.subset_append_left _ _) fun _ hl =>
      List.Subset.trans (inherits_of_report hl) (List.subset_append_left _ _)

theorem Tidy.bodies_plays (hs : s.Tidy) (strokes : List Stroke) :
    (s.plays strokes).jobs.bodies ++ (s.wanted strokes).filterMap JobEffect.started? ⊆
      s.jobs.bodies ++ (s.takenIn strokes).map handedIn := by
  induction strokes generalizing s with
  | nil => exact List.Subset.refl _
  | cons stroke rest ih =>
    have hfirst := bodies_does hs.settled stroke
    have hrest := ih (hs.told stroke).tidy
    obtain ⟨hnow, hwanted⟩ := List.append_subset.mp hfirst
    obtain ⟨hlater, hwanted'⟩ := List.append_subset.mp hrest
    have hgrows : (s.does stroke).jobs.bodies ++ ((s.does stroke).takenIn rest).map handedIn ⊆
        s.jobs.bodies ++ (s.takenIn (stroke :: rest)).map handedIn := by
      rw [takenIn, List.map_append, ← List.append_assoc]
      exact List.append_subset.mpr
        ⟨List.Subset.trans hnow (List.subset_append_left _ _), List.subset_append_right _ _⟩
    have hknown : s.jobs.bodies ++ (s.takesIn stroke).map handedIn ⊆
        s.jobs.bodies ++ (s.takenIn (stroke :: rest)).map handedIn := by
      rw [takenIn, List.map_append, ← List.append_assoc]
      exact List.subset_append_left _ _
    rw [wanted, List.filterMap_append]
    exact List.append_subset.mpr ⟨List.Subset.trans hlater hgrows, List.append_subset.mpr
      ⟨List.Subset.trans hwanted hknown, List.Subset.trans hwanted' hgrows⟩⟩

/-- A body that is started for a job is that of the job which was taken in under the number. -/
theorem body_of_started {b : Builder} {strokes : List Stroke} {id : Nat} {job : NewJob JobBody}
    (hjob : (id, job) ∈ b.build.takenIn strokes) {droppable : Bool} {body : JobBody}
    (hstart : .start id droppable body ∈ b.build.wanted strokes) : body = job.body := by
  have hwanted : (id, body) ∈ (b.build.wanted strokes).filterMap JobEffect.started? :=
    List.mem_filterMap.mpr ⟨_, hstart, rfl⟩
  have hknown := (tidy_build b).bodies_plays strokes (List.mem_append_right _ hwanted)
  obtain ⟨⟨other, job'⟩, hjob', heq⟩ := List.mem_map.mp hknown
  obtain ⟨rfl, rfl⟩ := Prod.mk.inj heq
  -- no number is given twice, so the two jobs are the same
  have hincreases := (tidy_build b).takenIn_increases strokes
  have hnodup : ((b.build.takenIn strokes).map Prod.fst).Nodup := hincreases.imp Nat.ne_of_lt
  have hsame := List.inj_on_of_nodup_map hnodup hjob hjob' rfl
  exact congrArg (fun j : Nat × NewJob JobBody => j.2.body) hsame.symm

end Switchboard.Hub
