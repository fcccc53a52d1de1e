import Switchboard.Proofs.Jobs.Deeds

namespace Switchboard.JobTable

variable {β : Type} {t t' t'' : JobTable β} {id now : Nat} {e : JobEntry β}
  {ends ends' : List JobSnapshot}

/-- No job was asked to stop. -/
def Unharmed (t : JobTable β) : Prop := ∀ e ∈ t.jobs, e.cancelled = false

/-- No job is asked to stop on the way, and these are the ends that are shown. -/
structure Closes (t t' : JobTable β) (ends : List JobSnapshot) : Prop where
  unharmed : t.Unharmed → t'.Unharmed
  shows : ∃ more, t'.reveals = t.reveals ++ more ∧ more.filter (·.state.isTerminal) = ends

theorem closes_of_eq (hjobs : t'.jobs = t.jobs) (hreveals : t'.reveals = t.reveals) :
    Closes t t' [] := by
  refine ⟨fun h => ?_, [], by rw [hreveals, List.append_nil], rfl⟩
  unfold Unharmed
  rwa [hjobs]

theorem closes_refl (t : JobTable β) : Closes t t [] := closes_of_eq rfl rfl

theorem Closes.trans (h : Closes t t' ends) (h' : Closes t' t'' ends') :
    Closes t t'' (ends ++ ends') := by
  obtain ⟨more, hmore, rfl⟩ := h.shows
  obtain ⟨more', hmore', rfl⟩ := h'.shows
  exact ⟨fun hu => h'.unharmed (h.unharmed hu), more ++ more',
    by rw [hmore', hmore, List.append_assoc], List.filter_append ..⟩

theorem Closes.then (h : Closes t t' ends) (h' : Closes t' t'' []) : Closes t t'' ends := by
  simpa using h.trans h'

theorem closes_want {effect : JobEffect β} (t : JobTable β) (h : effect.revealed? = none) :
    Closes t (t.want effect) [] := by
  refine closes_of_eq rfl ?_
  rw [want_eq, reveals_wants, List.filterMap_cons_none h, List.filterMap_nil, List.append_nil]

theorem closes_log (t : JobTable β) (level : LogLevel) (text : String) :
    Closes t (t.log level text) [] := t.closes_want rfl

theorem closes_publish (t : JobTable β) (id : Nat) (type : EventType) :
    Closes t (t.publish id type) [] :=
  closes_of_eq (by rw [publish_eq]; rfl) (reveals_publish t id type)

theorem closes_update {f : JobEntry β → JobEntry β} (t : JobTable β) (id : Nat)
    (hf : ∀ e, (f e).cancelled = e.cancelled) : Closes t (t.update id f) [] := by
  refine ⟨fun hu e he => ?_, [], (List.append_nil _).symm, rfl⟩
  obtain ⟨e', he', rfl⟩ := List.mem_map.mp he
  split
  next => exact (hf e').trans (hu e' he')
  next => exact hu e' he'

theorem closes_filter (t : JobTable β) (p : JobEntry β → Bool) :
    Closes t { t with jobs := t.jobs.filter p } [] :=
  ⟨fun hu e he => hu e (List.mem_filter.mp he).1, [], (List.append_nil _).symm, rfl⟩

theorem closes_change (t : JobTable β) (id : Nat) (s : JobSnapshot) :
    Closes t (t.change id s) ([s].filter (·.state.isTerminal)) := by
  have hwritten := t.closes_update (f := fun e => { e with snapshot := s }) id fun _ => rfl
  have hshown : Closes (t.update id fun e => { e with snapshot := s })
      ((t.update id fun e => { e with snapshot := s }).want (.reveal s))
      ([s].filter (·.state.isTerminal)) := ⟨fun hu => hu, [s], reveals_wants _ _, rfl⟩
  exact (hwritten.trans hshown).then (closes_publish _ id .changed)

theorem closes_transition {next : JobState} {edit : JobSnapshot → JobSnapshot} (t : JobTable β)
    (id : Nat) (hnext : next.isTerminal = false) (hedit : IsEdit edit) :
    Closes t (t.transition id next edit).1 [] := by
  unfold transition
  split
  next => exact closes_refl t
  next s _ =>
    split
    next =>
      have hopen : [edit { s with state := next }].filter (·.state.isTerminal) = [] := by
        simp [hedit.state, hnext]
      exact hopen ▸ closes_change t id (edit { s with state := next })
    next => exact closes_log _ _ _

theorem Unharmed.transition {next : JobState} {edit : JobSnapshot → JobSnapshot} (h : t.Unharmed)
    (id : Nat) : (t.transition id next edit).1.Unharmed := by
  unfold JobTable.transition
  split
  next => exact h
  next s _ =>
    split
    next => exact (closes_change t id _).unharmed h
    next => exact h

theorem closes_takeBody (t : JobTable β) (id : Nat) : Closes t (t.takeBody id) [] :=
  (t.closes_update (f := fun e => { e with body := none }) id fun _ => rfl).then
    (closes_want _ rfl)

theorem closes_start (t : JobTable β) (now id : Nat) : Closes t (t.start now id) [] := by
  have hbegun := (t.closes_takeBody id).then
    (closes_transition _ id (show JobState.running.isTerminal = false from rfl) (isEdit_begin now))
  unfold start
  split
  next => exact closes_refl t
  next =>
    split
    next => exact closes_log _ _ _
    next =>
      dsimp only
      split
      next => exact (hbegun.then (closes_log _ _ _)).then (closes_want _ rfl)
      next => exact hbegun

theorem closes_release (t : JobTable β) (now id : Nat) : Closes t (t.release now id) [] := by
  have hset : ∀ lock q, Closes t (t.setQueue lock q) [] := fun _ _ => closes_of_eq rfl rfl
  cases hlock : (t.snapshot? id).bind (·.lock) with
  | none =>
    simp only [release, hlock]
    exact closes_refl t
  | some lock =>
    cases hq : t.queue? lock with
    | none =>
      simp only [release, hlock, hq]
      exact closes_refl t
    | some q =>
      rw [release_eq t now id hlock hq]
      split
      next => exact hset _ _
      next =>
        split
        next => exact closes_of_eq rfl rfl
        next heir rest _ =>
          exact ((hset _ _).then (closes_log _ _ _)).then (closes_start _ now heir)

theorem closes_retire (t : JobTable β) (id : Nat) : Closes t (t.retire id) [] := by
  have hevict : ∀ (t : JobTable β) (id : Nat), Closes t (t.evict id) [] := fun t id =>
    ((t.closes_publish id .removed).then (closes_filter _ _)).then (closes_want _ rfl)
  have hevicts : ∀ (gone : List Nat) (t : JobTable β), Closes t (gone.foldl evict t) [] := by
    intro gone
    induction gone with
    | nil => exact closes_refl
    | cons id rest ih => exact fun t => (hevict t id).then (ih (t.evict id))
  unfold retire
  split
  next => exact (t.closes_filter _).then (closes_want _ rfl)
  next =>
    have hcounted : ∀ finished, Closes t { t with finished } [] := fun _ => closes_of_eq rfl rfl
    exact (hcounted _).then (hevicts _ _)

theorem closes_enter (t : JobTable β) (now : Nat) (job : NewJob β) :
    Closes t (t.enter now job) [] := by
  refine ⟨fun hu e he => ?_, _, reveals_enter t now job, rfl⟩
  rw [enter, publish_eq] at he
  rcases List.mem_append.mp he with hold | hnew
  · exact hu e hold
  · rw [List.mem_singleton.mp hnew]

theorem closes_submit (t : JobTable β) (now : Nat) (job : NewJob β) :
    Closes t (t.submit now job).1 [] := by
  have hset : ∀ (t : JobTable β) lock q, Closes t (t.setQueue lock q) [] :=
    fun _ _ _ => closes_of_eq rfl rfl
  unfold submit
  split
  next => exact closes_log _ _ _
  next =>
    dsimp only
    split
    next =>
      refine (t.closes_enter now job).then ?_
      unfold queueUp
      dsimp only
      split
      next => exact (hset _ _ _).then (closes_start _ _ _)
      next =>
        split
        next => exact ((hset _ _ _).then (closes_log _ _ _)).then (closes_want _ rfl)
        next => exact (hset _ _ _).then (closes_log _ _ _)
    next => exact (t.closes_enter now job).then (closes_start _ _ _)

theorem closes_progress (t : JobTable β) (id percent : Nat) (description : Option String) :
    Closes t (t.progress id percent description) [] := by
  unfold progress
  split
  next => exact closes_refl t
  next s _ =>
    dsimp only
    split
    next hrun =>
      have hopen : [{ s with progress := s.progress.report percent description }].filter
          (·.state.isTerminal) = [] := by simp [hrun.1, JobState.isTerminal]
      exact hopen ▸ closes_change t id _
    next => exact closes_refl t

/-- The end that is shown of a running job is the one that was reported. -/
theorem closes_finish (he : t.job? id = some e) (hrun : e.state = .running) (now : Nat)
    (outcome : Except CallError Json) :
    Closes t (t.finish now id outcome) [(e.settled now outcome).snapshot] := by
  have hended : (e.settled now outcome).snapshot.state.isTerminal = true :=
    isTerminal_of_settled now outcome e
  have hnoted : Closes t (t.noteEnd now id outcome e) [(e.settled now outcome).snapshot] :=
    ⟨fun hu => ((t.closes_want rfl).unharmed hu).transition id, _,
      reveals_noteEnd now outcome he hrun, by simp [hended]⟩
  rw [finish_eq now outcome he]
  exact (hnoted.then (closes_release _ now id)).then (closes_retire _ id)

/-- When a timer goes off, nothing is shown, or that the time of the job is up. -/
theorem Sound.closes_lockTimedOut (h : t.Sound) (now id : Nat) :
    ∃ ends, Closes t (t.lockTimedOut now id) ends ∧ ∀ s ∈ ends, ∃ e : JobEntry β, e.id = id ∧
      ∃ lock, s = (e.dismissed now .failed (.lockTimeout lock)).snapshot := by
  cases he : t.job? id with
  | none =>
    simp only [JobTable.lockTimedOut, he]
    exact ⟨[], closes_refl t, by simp⟩
  | some e =>
    by_cases hwait : e.state = .waiting
    · let lock := e.snapshot.lock.getD ""
      let warned := t.log .warn s!"Job {id} timed out waiting for lock {lock}"
      have hsound : warned.Sound := h.wants [_]
      have hshown := hsound.reveals_dismiss .failed he hwait rfl now (.lockTimeout lock)
      rw [reveals_log] at hshown
      simp only [JobTable.lockTimedOut, he, hwait, if_true]
      refine ⟨_, ⟨fun hu => ?_, _, hshown, rfl⟩, fun s hs => ⟨e, job?_id he, lock, ?_⟩⟩
      · have hfreed := ((t.closes_log _ _).then (closes_release warned now id)).then
          (closes_takeBody _ id)
        exact (closes_retire _ id).unharmed ((hfreed.unharmed hu).transition id)
      · exact List.mem_singleton.mp (List.mem_filter.mp hs).1
    · simp only [JobTable.lockTimedOut, he, hwait, if_false]
      exact ⟨[], closes_refl t, by simp⟩

end Switchboard.JobTable
