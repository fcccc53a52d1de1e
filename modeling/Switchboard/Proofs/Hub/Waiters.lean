import Switchboard.Hub.Step
import Switchboard.Proofs.Jobs.Endings

namespace Switchboard

namespace JobBoard

variable {b : JobBoard} {id : Nat}

theorem snapshot?_reveal (b : JobBoard) (s : JobSnapshot) (id : Nat) :
    (b.reveal s).snapshot? id = if id = s.id then some s else b.snapshot? id := by
  have hrest := lookup_filter_ne b.latest s.id id
  by_cases hid : id = s.id
  · simp [snapshot?, reveal, hid]
  · simpa [snapshot?, reveal, List.lookup_cons, beq_false_of_ne hid, hid] using hrest

def see {β : Type} (b : JobBoard) : JobEffect β → JobBoard
  | .reveal s => b.reveal s
  | .conceal id => b.conceal id
  | _ => b

theorem closed_see {β : Type} (b : JobBoard) (e : JobEffect β) : (b.see e).closed = b.closed := by
  cases e <;> rfl

/-- The board shows the last snapshot of a job that it was given. -/
theorem snapshot?_foldl_see {β : Type} {effects : List (JobEffect β)} {s : JobSnapshot}
    (hother : ∀ s' ∈ effects.filterMap JobEffect.revealed?, s'.id ≠ s.id)
    (hs : b.snapshot? s.id = some s) : (effects.foldl see b).snapshot? s.id = some s := by
  induction effects generalizing b with
  | nil => exact hs
  | cons effect rest ih =>
    refine ih (fun s' hs' => hother s' ?_) ?_
    · rw [List.filterMap_cons]
      split
      next => exact hs'
      next => exact List.mem_cons_of_mem _ hs'
    · cases effect with
      | reveal s' =>
        have hne : s.id ≠ s'.id := (hother s' (by simp [JobEffect.revealed?])).symm
        rw [see, snapshot?_reveal, if_neg hne, hs]
      | _ => exact hs

end JobBoard

namespace Hub

variable {s s' s'' : Hub} {id : Nat}

def HasTurn (s : Hub) (t : Task) : Prop := t.runnable = true ∧ .task t.id ∈ s.turns

/-- Nobody loses a turn, and who is new has one. -/
structure Rouses (s s' : Hub) : Prop where
  board : s'.board = s.board
  turns : s.turns ⊆ s'.turns
  tasks : ∀ t' ∈ s'.tasks, (∃ t ∈ s.tasks, t'.id = t.id ∧ t'.routine = t.routine ∧
    (t.runnable = true → t'.runnable = true)) ∨ s'.HasTurn t'

theorem rouses_of_tasks (hboard : s'.board = s.board) (hturns : s.turns ⊆ s'.turns)
    (htasks : s'.tasks ⊆ s.tasks) : Rouses s s' :=
  ⟨hboard, hturns, fun t ht => .inl ⟨t, htasks ht, rfl, rfl, id⟩⟩

theorem Rouses.trans (h : Rouses s s') (h' : Rouses s' s'') : Rouses s s'' where
  board := h'.board.trans h.board
  turns := List.Subset.trans h.turns h'.turns
  tasks t'' ht'' := by
    rcases h'.tasks t'' ht'' with ⟨t', ht', hid, hroutine, hrun⟩ | hturn
    · rcases h.tasks t' ht' with ⟨t, ht, hid', hroutine', hrun'⟩ | ⟨hrunnable, hturn⟩
      · exact .inl ⟨t, ht, hid.trans hid', hroutine.trans hroutine', hrun ∘ hrun'⟩
      · exact .inr ⟨hrun hrunnable, hid ▸ h'.turns hturn⟩
    · exact .inr hturn

theorem turns_enqueue (s : Hub) (turn : Turn) :
    s.turns ⊆ (s.enqueue turn).turns ∧ turn ∈ (s.enqueue turn).turns := by
  unfold enqueue
  split
  next h => exact ⟨List.Subset.refl _, h⟩
  next => exact ⟨List.subset_append_left _ _, by simp⟩

theorem tasks_enqueue (s : Hub) (turn : Turn) : (s.enqueue turn).tasks = s.tasks := by
  unfold enqueue
  split <;> rfl

theorem board_enqueue (s : Hub) (turn : Turn) : (s.enqueue turn).board = s.board := by
  unfold enqueue
  split <;> rfl

theorem rouses_enqueue (s : Hub) (turn : Turn) : Rouses s (s.enqueue turn) :=
  rouses_of_tasks (board_enqueue s turn) (turns_enqueue s turn).1
    (tasks_enqueue s turn ▸ List.Subset.refl _)

theorem rouses_wake (s : Hub) (id : Nat) : Rouses s (s.wake id) where
  board := board_enqueue _ _
  turns := (turns_enqueue (s.updateTask id _) (.task id)).1
  tasks t' ht' := by
    rw [wake, tasks_enqueue] at ht'
    obtain ⟨t, ht, rfl⟩ := List.mem_map.mp ht'
    refine .inl ⟨t, ht, ?_⟩
    split <;> simp

theorem hasTurn_wake (s : Hub) (id : Nat) {t : Task} (ht : t ∈ (s.wake id).tasks)
    (hid : t.id = id) : (s.wake id).HasTurn t := by
  refine ⟨?_, hid ▸ (turns_enqueue _ _).2⟩
  rw [wake, tasks_enqueue] at ht
  obtain ⟨t', ht', rfl⟩ := List.mem_map.mp ht
  split at hid
  next heq => simp [heq]
  next hne => exact absurd hid hne

theorem Rouses.hasTurn (h : Rouses s s') {p : Task → Prop}
    (hp : ∀ t t' : Task, t'.id = t.id → t'.routine = t.routine → p t' → p t)
    (hs : ∀ t ∈ s.tasks, p t → s.HasTurn t) : ∀ t ∈ s'.tasks, p t → s'.HasTurn t := by
  intro t' ht' hpt'
  rcases h.tasks t' ht' with ⟨t, ht, hid, hroutine, hrun⟩ | hturn
  · obtain ⟨hrunnable, hturn⟩ := hs t ht (hp t t' hid hroutine hpt')
    exact ⟨hrun hrunnable, hid ▸ h.turns hturn⟩
  · exact hturn

theorem rouses_foldl_wake (ids : List Task) (s : Hub) :
    Rouses s (ids.foldl (fun s t => s.wake t.id) s) ∧
      ∀ t ∈ (ids.foldl (fun s t => s.wake t.id) s).tasks, t.id ∈ ids.map Task.id →
        (ids.foldl (fun s t => s.wake t.id) s).HasTurn t := by
  induction ids generalizing s with
  | nil => exact ⟨rouses_of_tasks rfl (List.Subset.refl _) (List.Subset.refl _), by simp⟩
  | cons first rest ih =>
    obtain ⟨hrest, hturns⟩ := ih (s.wake first.id)
    refine ⟨(rouses_wake s first.id).trans hrest, fun t ht hid => ?_⟩
    rw [List.map_cons, List.mem_cons] at hid
    rcases hid with hid | hid
    · exact hrest.hasTurn (p := fun t => t.id = first.id) (fun t t' heq _ h => heq.symm.trans h)
        (fun t ht hid => hasTurn_wake s first.id ht hid) t ht hid
    · exact hturns t ht hid

theorem rouses_wakeAt (s : Hub) (p : Action → Bool) : Rouses s (s.wakeAt p) :=
  (rouses_foldl_wake _ s).1

theorem hasTurn_wakeAt (s : Hub) (p : Action → Bool) :
    ∀ t ∈ (s.wakeAt p).tasks, t.action?.any p = true → (s.wakeAt p).HasTurn t := by
  intro t' ht' hp
  obtain ⟨hrouses, hturns⟩ := rouses_foldl_wake (s.tasks.filter fun t => t.action?.any p) s
  rcases hrouses.tasks t' ht' with ⟨t, ht, hid, hroutine, -⟩ | hturn
  · have hsame : t'.action? = t.action? := by simp [Task.action?, hroutine]
    have hmem : t ∈ s.tasks.filter fun t => t.action?.any p :=
      List.mem_filter.mpr ⟨ht, hsame ▸ hp⟩
    exact hturns t' ht' (hid ▸ List.mem_map_of_mem hmem)
  · exact hturn

theorem spawn_eq (s : Hub) (routine : Routine Outcome)
    (fallback : Option (Token × Routine Outcome)) :
    (s.spawn routine fallback).2 = ({ s with
      nextNumber := s.nextNumber + 1
      tasks := s.tasks ++ [{ id := s.nextNumber, routine, fallback }] } : Hub).enqueue
        (.task s.nextNumber) := rfl

theorem rouses_spawn (s : Hub) (routine : Routine Outcome)
    (fallback : Option (Token × Routine Outcome)) : Rouses s (s.spawn routine fallback).2 := by
  rw [spawn_eq]
  generalize harrived : ({ s with
    nextNumber := s.nextNumber + 1
    tasks := s.tasks ++ [{ id := s.nextNumber, routine, fallback }] } : Hub) = arrived
  have hboard : arrived.board = s.board := by rw [← harrived]
  have hturns : arrived.turns = s.turns := by rw [← harrived]
  obtain ⟨hkept, hnew⟩ := turns_enqueue arrived (.task s.nextNumber)
  refine ⟨(board_enqueue _ _).trans hboard, hturns ▸ hkept, fun t' ht' => ?_⟩
  rw [tasks_enqueue, ← harrived] at ht'
  rcases List.mem_append.mp ht' with ht | ht
  · exact .inl ⟨t', ht, rfl, rfl, id⟩
  · cases List.mem_singleton.mp ht
    exact .inr ⟨rfl, hnew⟩

theorem rouses_dropTask (s : Hub) (id : Nat) : Rouses s (s.dropTask id) :=
  rouses_of_tasks rfl (List.Subset.refl _) (List.filter_subset_self _)

theorem rouses_cancel (s : Hub) (token : Token) : Rouses s (s.cancel token) := by
  have henqueue : ∀ (tasks : List Task) (s : Hub),
      Rouses s (tasks.foldl (fun s t => s.enqueue (.task t.id)) s) := by
    intro tasks
    induction tasks with
    | nil => exact fun s => rouses_of_tasks rfl (List.Subset.refl _) (List.Subset.refl _)
    | cons t rest ih => exact fun s => (rouses_enqueue s (.task t.id)).trans (ih _)
  have hfired : Rouses s { s with fired := token :: s.fired } :=
    rouses_of_tasks rfl (List.Subset.refl _) (List.Subset.refl _)
  exact (hfired.trans (rouses_wakeAt _ _)).trans (henqueue _ _)

/-- To do what the table wants is to let those go on whom it concerns, with the board as it is
then. -/
theorem rouses_apply (s : Hub) (effect : JobEffect JobBody) :
    Rouses { s with board := s.board.see effect } (s.apply effect) := by
  have hsame : ∀ {s' : Hub}, s'.board = s.board → s'.turns = s.turns → s'.tasks = s.tasks →
      Rouses s s' := fun hboard hturns htasks =>
    rouses_of_tasks hboard (hturns ▸ List.Subset.refl _) (htasks ▸ List.Subset.refl _)
  cases effect with
  | publish event => exact hsame rfl rfl rfl
  | reveal snapshot => exact rouses_wakeAt _ _
  | conceal id => exact rouses_wakeAt _ _
  | start id droppable body => exact rouses_spawn s _ _
  | armTimer id ms =>
    exact (rouses_spawn s (Exchange.runLockTimer id ms) none).trans
      (rouses_of_tasks rfl (List.Subset.refl _) (List.Subset.refl _))
  | disarmTimer id =>
    cases htimer : s.lockTimers.lookup id with
    | none =>
      simp only [apply, htimer]
      exact hsame rfl rfl rfl
    | some task =>
      simp only [apply, htimer]
      exact (rouses_dropTask s task).trans
        (rouses_of_tasks rfl (List.Subset.refl _) (List.Subset.refl _))
  | cancel id => exact rouses_cancel s _
  | log record => exact hsame rfl rfl rfl

theorem board_foldl_apply (effects : List (JobEffect JobBody)) (s : Hub) :
    (effects.foldl apply s).board = effects.foldl JobBoard.see s.board := by
  induction effects generalizing s with
  | nil => rfl
  | cons effect rest ih =>
    rw [List.foldl_cons, List.foldl_cons, ih, (rouses_apply s effect).board]

def awaits (id : Nat) (t : Task) : Prop := ∃ deadline, t.action? = some (.awaitJob id deadline)

theorem awaits_of_same {t t' : Task} (hroutine : t'.routine = t.routine) (h : awaits id t') :
    awaits id t := by
  obtain ⟨deadline, hd⟩ := h
  exact ⟨deadline, by rw [← hd, Task.action?, Task.action?, hroutine]⟩

theorem hasTurn_foldl_apply (effects : List (JobEffect JobBody)) (s : Hub)
    (hs : ∀ t ∈ s.tasks, awaits id t → s.HasTurn t) :
    ∀ t ∈ (effects.foldl apply s).tasks, awaits id t → (effects.foldl apply s).HasTurn t := by
  induction effects generalizing s with
  | nil => exact hs
  | cons effect rest ih =>
    exact ih _ ((rouses_apply s effect).hasTurn (fun t t' _ hr h => awaits_of_same hr h) hs)

/-- When the last that is shown of a job is its end, those who wait for it get their turn, and are
told of it. -/
theorem waiters_are_told {t : JobTable JobBody} {snapshot : JobSnapshot}
    {before more : List JobSnapshot} (hshown : t.reveals = before ++ snapshot :: more)
    (hother : ∀ s' ∈ more, s'.id ≠ snapshot.id) (hend : snapshot.state.isTerminal = true)
    (s : Hub) : (s.adopt t).board.ending? snapshot.id = some (.ok snapshot) ∧
      ∀ task ∈ (s.adopt t).tasks, awaits snapshot.id task → (s.adopt t).HasTurn task := by
  obtain ⟨first, later, heffects, -, hlater⟩ := List.filterMap_eq_append_iff.mp hshown
  obtain ⟨quiet, effect, rest, rfl, -, hreveal, rfl⟩ := List.filterMap_eq_cons_iff.mp hlater
  have heffect : effect = .reveal snapshot := by
    cases effect with
    | reveal s' => exact congrArg _ (Option.some.inj hreveal)
    | _ => cases hreveal
  subst heffect
  -- the effects up to the last snapshot of the job, and those after it
  have hsplit : t.effects = first ++ quiet ++ .reveal snapshot :: rest := by
    rw [heffects, List.append_assoc]
  have hadopt : s.adopt t = rest.foldl apply
      (((first ++ quiet).foldl apply { s with jobs := { t with effects := [] } }).apply
        (.reveal snapshot)) := by
    rw [adopt, hsplit, List.foldl_append, List.foldl_cons]
  generalize (first ++ quiet).foldl apply { s with jobs := { t with effects := [] } } = v at hadopt
  rw [hadopt]
  constructor
  · have hshows : (v.apply (.reveal snapshot)).board.snapshot? snapshot.id = some snapshot := by
      rw [(rouses_apply v (.reveal snapshot)).board]
      exact (JobBoard.snapshot?_reveal _ _ _).trans (if_pos rfl)
    have hlast := JobBoard.snapshot?_foldl_see hother hshows
    rw [board_foldl_apply, JobBoard.ending?, hlast]
    simp [hend]
  · refine hasTurn_foldl_apply rest _ fun task htask hawaits => ?_
    obtain ⟨deadline, hd⟩ := hawaits
    exact hasTurn_wakeAt _ _ task htask (by simp [hd])

end Hub

end Switchboard
