import Switchboard.Proofs.Hub.Waiters
import Switchboard.Proofs.Hub.Strokes

namespace Switchboard.Hub

variable {s s' : Hub}

@[simp] theorem ended_enqueue (s : Hub) (turn : Turn) : (s.enqueue turn).ended = s.ended := by
  unfold enqueue
  split <;> rfl

@[simp] theorem ended_wake (s : Hub) (id : Nat) : (s.wake id).ended = s.ended := ended_enqueue _ _

theorem ended_foldl {α : Type} {f : Hub → α → Hub} (hf : ∀ s a, (f s a).ended = s.ended)
    (l : List α) (s : Hub) : (l.foldl f s).ended = s.ended := by
  induction l generalizing s with
  | nil => rfl
  | cons a rest ih => exact (ih (f s a)).trans (hf s a)

@[simp] theorem ended_wakeAt (s : Hub) (p : Action → Bool) : (s.wakeAt p).ended = s.ended :=
  ended_foldl (fun s (t : Task) => ended_wake s t.id) _ s

@[simp] theorem ended_resume (s : Hub) (id : Nat) (routine : Routine Outcome) :
    (s.resume id routine).ended = s.ended := ended_wake _ _

@[simp] theorem ended_arm (s : Hub) (time id : Nat) : (s.arm time id).ended = s.ended := by
  unfold arm
  split <;> rfl

@[simp] theorem ended_cancel (s : Hub) (token : Token) : (s.cancel token).ended = s.ended :=
  (ended_foldl (fun s (t : Task) => ended_enqueue s (.task t.id)) _ _).trans (ended_wakeAt _ _)

@[simp] theorem ended_updateSubscription (s : Hub) (n : Nat) (f : Subscription → Subscription) :
    (s.updateSubscription n f).ended = s.ended := ended_wakeAt _ _

@[simp] theorem ended_send (s : Hub) (l : Letter) : (s.send l).ended = s.ended := ended_enqueue _ _

@[simp] theorem ended_spawn (s : Hub) (routine : Routine Outcome)
    (fallback : Option (Token × Routine Outcome)) :
    (s.spawn routine fallback).2.ended = s.ended := ended_enqueue _ _

@[simp] theorem ended_finishTask (s : Hub) (id : Nat) (outcome : Outcome) :
    (s.finishTask id outcome).ended = (id, outcome) :: s.ended := ended_wakeAt _ _

theorem ended_forward (s : Hub) (n outlet : Nat) : (s.forward n outlet).1.ended = s.ended := by
  unfold forward
  split
  next =>
    repeat' split
    all_goals simp [setOutlet]
  next => rfl

theorem ended_step (s : Hub) (task : Nat) (action : Action)
    (next : action.Reply → Routine Outcome) : (s.step task action next).1.ended = s.ended := by
  cases action with
  | sleepUntil time | gate name | ask request | report report | awaitJob id deadline | push n
  | rest n time =>
    simp only [step]
    repeat' split
    all_goals simp [setGate]
  | forward n outlet =>
    have hforward := ended_forward s n outlet
    simp only [step]
    split
    next heq => exact (congrArg (fun r => r.1.ended) heq).symm.trans hforward
    next heq => exact (congrArg (fun r => r.1.ended) heq).symm.trans hforward
  | cancel token => exact ended_cancel s token
  | beginRound n | concludeRound n round => exact ended_updateSubscription _ _ _
  | spawn work => exact ended_spawn s (s.exchange.work work) none
  | _ => rfl

theorem ended_apply (s : Hub) (effect : JobEffect JobBody) :
    (s.apply effect).ended = s.ended := by
  cases effect with
  | reveal snapshot | conceal id => exact ended_wakeAt _ _
  | start id droppable body => exact ended_spawn s _ _
  | armTimer id ms => exact ended_spawn s _ _
  | disarmTimer id =>
    simp only [apply]
    split <;> rfl
  | cancel id => exact ended_cancel s _
  | _ => rfl

/-- Every task has a number that was given to it. -/
structure Numbered (s : Hub) : Prop where
  tasks : ∀ t ∈ s.tasks, t.id < s.nextNumber
  ended : ∀ e ∈ s.ended, e.1 < s.nextNumber

theorem Numbered.of_bare (h : s.Numbered) (hbare : s'.bare = s.bare) (hended : s'.ended = s.ended) :
    s'.Numbered := by
  have htasks := congrArg (fun s : Hub => s.tasks.map Task.id) hbare
  have hnumber := congrArg Hub.nextNumber hbare
  have hids : ∀ s : Hub, s.bare.tasks.map Task.id = s.tasks.map Task.id := fun s =>
    List.map_map.trans rfl
  simp only [hids] at htasks
  simp only [bare] at hnumber
  refine ⟨fun t ht => ?_, fun e he => hnumber ▸ h.ended e (hended ▸ he)⟩
  have hmem : t.id ∈ s.tasks.map Task.id := htasks ▸ List.mem_map_of_mem ht
  obtain ⟨t', ht', hid⟩ := List.mem_map.mp hmem
  exact hnumber ▸ hid ▸ h.tasks t' ht'

theorem Numbered.updateTask (h : s.Numbered) (id : Nat) {f : Task → Task}
    (hf : ∀ t, (f t).id = t.id) : (s.updateTask id f).Numbered := by
  refine ⟨fun t ht => ?_, h.ended⟩
  obtain ⟨t', ht', rfl⟩ := List.mem_map.mp ht
  split
  next => exact (hf t').symm ▸ h.tasks t' ht'
  next => exact h.tasks t' ht'

theorem Numbered.goOn (h : s.Numbered) (id : Nat) (routine : Routine Outcome) :
    (s.goOn id routine).Numbered := h.updateTask id fun _ => rfl

theorem Numbered.resume (h : s.Numbered) (id : Nat) (routine : Routine Outcome) :
    (s.resume id routine).Numbered :=
  (h.goOn id routine).of_bare (bare_resume s id routine) (ended_resume s id routine)

theorem Numbered.spawn (h : s.Numbered) (routine : Routine Outcome)
    (fallback : Option (Token × Routine Outcome)) : (s.spawn routine fallback).2.Numbered := by
  have hnew : ({ s with
      nextNumber := s.nextNumber + 1
      tasks := s.tasks ++ [{ id := s.nextNumber, routine, fallback }] } : Hub).Numbered := by
    refine ⟨fun t ht => ?_, fun e he => Nat.lt_succ_of_lt (h.ended e he)⟩
    rcases List.mem_append.mp ht with ht | ht
    · exact Nat.lt_succ_of_lt (h.tasks t ht)
    · rw [List.mem_singleton.mp ht]
      exact Nat.lt_succ_self _
  exact hnew.of_bare (bare_spawn s routine fallback) (ended_spawn s routine fallback)

theorem Numbered.dropTask (h : s.Numbered) (id : Nat) : (s.dropTask id).Numbered :=
  ⟨fun t ht => h.tasks t (List.mem_filter.mp ht).1, h.ended⟩

theorem Numbered.step (h : s.Numbered) (task : Nat) (action : Action)
    (next : action.Reply → Routine Outcome) : (s.step task action next).1.Numbered := by
  have hstep : (s.step task action next).1.bare = (s.imprint task action next).bare :=
    bare_step s task action next
  have hended := ended_step s task action next
  cases action with
  | newToken parent =>
    have hnew : (s.imprint task (.newToken parent) next).Numbered :=
      ⟨fun t ht => Nat.lt_succ_of_lt (h.tasks t ht), fun e he => Nat.lt_succ_of_lt (h.ended e he)⟩
    exact hnew.of_bare hstep hended
  | cancel token =>
    have hnew : (s.imprint task (.cancel token) next).Numbered := ⟨h.tasks, h.ended⟩
    exact hnew.of_bare hstep hended
  | ask request | report report =>
    refine Numbered.of_bare (s := s.imprint task _ next) ?_ hstep ?_
    all_goals
      simp only [imprint]
      split
    · exact ⟨h.tasks, h.ended⟩
    · exact h
    · exact hended
    · exact hended
  | spawn work => exact h.spawn (s.exchange.work work) none
  | _ => exact h.of_bare hstep hended

theorem nextNumber_le_step (s : Hub) (task : Nat) (action : Action)
    (next : action.Reply → Routine Outcome) :
    s.nextNumber ≤ (s.step task action next).1.nextNumber := by
  have hstep := congrArg Hub.nextNumber (bare_step s task action next)
  simp only [bare] at hstep
  rw [hstep]
  cases action with
  | newToken parent => exact Nat.le_succ _
  | spawn work =>
    have hspawn := congrArg Hub.nextNumber (bare_spawn s (s.exchange.work work) none)
    simp only [bare] at hspawn
    exact Nat.le_of_lt (Nat.lt_of_lt_of_eq (Nat.lt_succ_self _) hspawn.symm)
  | ask request | report report =>
    simp only [imprint]
    split <;> exact Nat.le_refl _
  | _ => exact Nat.le_refl _

theorem Numbered.run (h : s.Numbered) {task : Nat} (htask : task < s.nextNumber) (fuel : Nat)
    (routine : Routine Outcome) : (run fuel s task routine).Numbered := by
  induction fuel generalizing s routine with
  | zero => exact h.updateTask task fun _ => rfl
  | succ fuel ih =>
    cases routine with
    | done outcome =>
      have hdropped := h.dropTask task
      have hnew : Numbered { s.dropTask task with ended := (task, outcome) :: s.ended } := by
        refine ⟨hdropped.tasks, fun e he => ?_⟩
        rcases List.mem_cons.mp he with rfl | he
        · exact htask
        · exact h.ended e he
      exact hnew.of_bare (bare_wakeAt _ _) (ended_wakeAt _ _)
    | act action next =>
      have hstep := h.step task action next
      have hgrows := nextNumber_le_step s task action next
      rw [Hub.run]
      split
      next s' routine heq =>
        rw [heq] at hstep hgrows
        have hdisarmed : (s'.disarm task).Numbered := hstep.of_bare rfl rfl
        exact ih hdisarmed (Nat.lt_of_lt_of_le htask hgrows) routine
      next s' heq =>
        rw [heq] at hstep
        exact hstep.updateTask task fun _ => rfl

theorem Numbered.apply (h : s.Numbered) (effect : JobEffect JobBody) :
    (s.apply effect).Numbered := by
  have hended := ended_apply s effect
  cases effect with
  | publish event => exact ⟨h.tasks, h.ended⟩
  | log record => exact ⟨h.tasks, h.ended⟩
  | reveal snapshot =>
    have hnew : ({ s with board := s.board.reveal snapshot } : Hub).Numbered := ⟨h.tasks, h.ended⟩
    exact hnew.of_bare (bare_wakeWatchers _ _) hended
  | conceal id =>
    have hnew : ({ s with board := s.board.conceal id } : Hub).Numbered := ⟨h.tasks, h.ended⟩
    exact hnew.of_bare (bare_wakeWatchers _ _) hended
  | start id droppable body => exact h.spawn _ _
  | armTimer id ms =>
    have hnew := h.spawn (Exchange.runLockTimer id ms) none
    exact ⟨hnew.tasks, hnew.ended⟩
  | disarmTimer id =>
    simp only [Hub.apply]
    split
    next => exact h
    next task _ => exact ⟨(h.dropTask task).tasks, h.ended⟩
  | cancel id =>
    have hnew : ({ s with fired := .job id :: s.fired } : Hub).Numbered := ⟨h.tasks, h.ended⟩
    exact hnew.of_bare (bare_cancel s (.job id)) hended

theorem Numbered.adopt (h : s.Numbered) (t : JobTable JobBody) : (s.adopt t).Numbered := by
  have hfold : ∀ (effects : List (JobEffect JobBody)) (s : Hub), s.Numbered →
      (effects.foldl Hub.apply s).Numbered := by
    intro effects
    induction effects with
    | nil => exact fun _ h => h
    | cons effect rest ih => exact fun s h => ih (s.apply effect) (h.apply effect)
  exact hfold t.effects _ ⟨h.tasks, h.ended⟩

theorem Numbered.handle (h : s.Numbered) (l : Letter) : (s.handle l).Numbered := by
  cases l with
  | report r =>
    simp only [Hub.handle]
    split
    next => exact h.adopt _
    next => exact h
  | request r task next =>
    have hrespond : (s.respond r).1.Numbered := by
      cases r with
      | submit job => exact h.adopt _
      | abort id => exact h.adopt _
      | shutdown =>
        have hwritten : (s.write .info "Stopping job manager").Numbered := ⟨h.tasks, h.ended⟩
        exact hwritten.adopt _
      | subscribe => exact ⟨h.tasks, h.ended⟩
      | get id | watch id | list => exact h
    cases hkept : s.kept with
    | false =>
      simp only [Hub.handle, hkept, Bool.false_eq_true, if_false]
      exact h.resume task _
    | true =>
      have hanswer : (s.answer r task next).Numbered := hrespond.resume task _
      rw [handle_request hkept]
      split
      next =>
        have hretired : ({ s.answer r task next with
            kept := false
            board := (s.answer r task next).board.close
            jobEvents := (s.answer r task next).jobEvents.close } : Hub).Numbered :=
          ⟨hanswer.tasks, hanswer.ended⟩
        exact hretired.of_bare (bare_wakeAt _ _) (ended_wakeAt _ _)
      next => exact hanswer

theorem Numbered.does (h : s.Numbered) (stroke : Stroke) : (s.does stroke).Numbered := by
  have hfirst : ∀ p, (s.handleFirst p).Numbered := by
    intro p
    unfold handleFirst
    split
    next => exact h
    next letter _ =>
      have hopened : ({ s with letters := s.letters.eraseP p } : Hub).Numbered :=
        ⟨h.tasks, h.ended⟩
      exact hopened.handle letter
  have hfound : ∀ {task t}, s.task? task = some t → task < s.nextNumber := by
    intro task t ht
    have hid : t.id = task := by simpa using List.find?_some ht
    exact hid ▸ h.tasks t (List.mem_of_find?_eq_some ht)
  cases stroke with
  | begin routine => exact h.spawn routine none
  | act task =>
    simp only [Hub.does, act]
    split
    next => exact h
    next t ht =>
      split
      next => exact h
      next => exact h.run (hfound ht) 1 t.routine
  | fall task =>
    simp only [Hub.does, fallBack]
    split
    next => exact h
    next token routine hfallback =>
      split
      next =>
        obtain ⟨t, ht, -⟩ := Option.bind_eq_some_iff.mp hfallback
        have hwithdrawn : (s.withdraw task).Numbered := ⟨h.tasks, h.ended⟩
        have hleft := hwithdrawn.updateTask task (f := fun t => { t with fallback := none })
          fun _ => rfl
        exact hleft.run (hfound ht) limit routine
      next => exact h
  | request => exact hfirst Letter.isRequest
  | report => exact hfirst Letter.isReport
  | around other | take receiver | drop receiver => exact ⟨h.tasks, h.ended⟩

end Switchboard.Hub
