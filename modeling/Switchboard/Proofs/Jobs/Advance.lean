import Switchboard.Proofs.Jobs.Changes

namespace Switchboard.JobTable

variable {β : Type} {t t' t'' : JobTable β} {id : Nat} {e e' : JobEntry β} {lock : Option String}

/-- A job is in a state and asks for a lock, or for none. -/
def Has (t : JobTable β) (state : JobState) (lock : Option String) (id : Nat) : Prop :=
  ∃ e, t.job? id = some e ∧ e.state = state ∧ e.snapshot.lock = lock

def Over (t : JobTable β) (id : Nat) : Prop := ∃ e, t.job? id = some e ∧ e.state.isTerminal = true

theorem Has.mem_ids {state : JobState} (h : t.Has state lock id) : id ∈ t.ids := by
  obtain ⟨e, he, -⟩ := h
  by_contra hn
  rw [job?_eq_none_iff.mpr hn] at he
  cases he

theorem Has.unique {state state' : JobState} {lock' : Option String} (h : t.Has state lock id)
    (h' : t.Has state' lock' id) : state = state' ∧ lock = lock' := by
  obtain ⟨e, he, rfl, rfl⟩ := h
  obtain ⟨e', he', rfl, rfl⟩ := h'
  cases Option.some.inj (he.symm.trans he')
  exact ⟨rfl, rfl⟩

theorem SameBut.has_iff (h : SameBut t t' id e') (state : JobState) (lock : Option String)
    (j : Nat) : t'.Has state lock j ↔
      if j = id then e'.state = state ∧ e'.snapshot.lock = lock else t.Has state lock j := by
  unfold Has
  rw [h.job?]
  by_cases hj : j = id <;> simp [hj]

/-- Of the unfinished jobs some end, and some that waited are started; the others stay as they
are. -/
structure Advances (t t' : JobTable β) (ended : List Nat) (started : List (Nat × β)) : Prop where
  running : ∀ lock id, t'.Has .running lock id ↔
    t.Has .running lock id ∧ id ∉ ended ∨ t.Has .waiting lock id ∧ id ∈ started.map Prod.fst
  waiting : ∀ id e, t'.job? id = some e ∧ e.state = .waiting ↔
    (t.job? id = some e ∧ e.state = .waiting) ∧ id ∉ ended ∧ id ∉ started.map Prod.fst
  waited : ∀ s ∈ started, ∃ e, t.job? s.1 = some e ∧ e.state = .waiting ∧ e.body = some s.2
  once : (started.map Prod.fst).Nodup
  starts : t'.starts = t.starts ++ started
  nextId : t'.nextId = t.nextId
  maxRetained : t'.maxRetained = t.maxRetained

namespace Advances

variable {ended ended' : List Nat} {started started' : List (Nat × β)}

theorem has_waiting (h : Advances t t' ended started) (lock : Option String) (id : Nat) :
    t'.Has .waiting lock id ↔
      t.Has .waiting lock id ∧ id ∉ ended ∧ id ∉ started.map Prod.fst := by
  constructor
  · rintro ⟨e, he, hs, hl⟩
    obtain ⟨⟨he', -⟩, hn⟩ := (h.waiting id e).mp ⟨he, hs⟩
    exact ⟨⟨e, he', hs, hl⟩, hn⟩
  · rintro ⟨⟨e, he, hs, hl⟩, hn⟩
    exact ⟨e, ((h.waiting id e).mpr ⟨⟨he, hs⟩, hn⟩).1, hs, hl⟩

theorem started_waits (h : Advances t t' ended started) (hs : id ∈ started.map Prod.fst) :
    ∃ lock, t.Has .waiting lock id := by
  obtain ⟨s, hmem, rfl⟩ := List.mem_map.mp hs
  obtain ⟨e, he, hw, -⟩ := h.waited s hmem
  exact ⟨_, e, he, hw, rfl⟩

/-- What is started in a second change waited before the first, and what the first has started the
second must not end. -/
theorem trans (h : Advances t t' ended started) (h' : Advances t' t'' ended' started')
    (hkeep : ∀ s ∈ started, s.1 ∉ ended') :
    Advances t t'' (ended ++ ended') (started ++ started') where
  running lock id := by
    have hk : id ∈ started.map Prod.fst → id ∉ ended' := by
      intro hs
      obtain ⟨s, hmem, rfl⟩ := List.mem_map.mp hs
      exact hkeep s hmem
    have hw : id ∈ started'.map Prod.fst →
        id ∉ ended ∧ id ∉ started.map Prod.fst := by
      intro hs
      obtain ⟨lock', hl⟩ := h'.started_waits hs
      exact ((h.has_waiting lock' id).mp hl).2
    rw [h'.running, h.running, h.has_waiting, List.map_append, List.mem_append, List.mem_append]
    tauto
  waiting id e := by
    rw [h'.waiting, h.waiting, List.map_append, List.mem_append, List.mem_append]
    tauto
  waited s hs := by
    rcases List.mem_append.mp hs with hs | hs
    · exact h.waited s hs
    · obtain ⟨e, he, hw, hb⟩ := h'.waited s hs
      exact ⟨e, ((h.waiting s.1 e).mp ⟨he, hw⟩).1.1, hw, hb⟩
  once := by
    rw [List.map_append]
    refine List.nodup_append.mpr ⟨h.once, h'.once, ?_⟩
    rintro id hs _ hs' rfl
    obtain ⟨lock, hl⟩ := h'.started_waits hs'
    exact ((h.has_waiting lock id).mp hl).2.2 hs
  starts := by rw [h'.starts, h.starts, List.append_assoc]
  nextId := h'.nextId.trans h.nextId
  maxRetained := h'.maxRetained.trans h.maxRetained

end Advances

theorem advances_of_job?_eq (hjob : ∀ j, t'.job? j = t.job? j) (hstarts : t'.starts = t.starts)
    (hnext : t'.nextId = t.nextId) (hmax : t'.maxRetained = t.maxRetained) :
    Advances t t' [] [] where
  running lock id := by simp [Has, hjob]
  waiting id e := by simp [hjob]
  waited := by simp
  once := by simp
  starts := by simp [hstarts]
  nextId := hnext
  maxRetained := hmax

theorem advances_refl (t : JobTable β) : Advances t t [] [] :=
  advances_of_job?_eq (fun _ => rfl) rfl rfl rfl

theorem advances_setQueue (t : JobTable β) (lock : String) (q : LockQueue) :
    Advances t (t.setQueue lock q) [] [] :=
  advances_of_job?_eq (fun _ => rfl) rfl rfl rfl

theorem advances_dropQueue (t : JobTable β) (lock : String) :
    Advances t (t.dropQueue lock) [] [] :=
  advances_of_job?_eq (fun _ => rfl) rfl rfl rfl

theorem advances_wants {effects : List (JobEffect β)}
    (heffects : effects.filterMap JobEffect.started? = []) :
    Advances t (t.wants effects) [] [] :=
  advances_of_job?_eq (fun _ => rfl) (by rw [starts_wants, heffects, List.append_nil]) rfl rfl

theorem SameBut.advances_running (h : SameBut t t' id e') (he : t.job? id = some e)
    (hs : e.state = .running) (hs' : e'.state = .running)
    (hl : e'.snapshot.lock = e.snapshot.lock) (hstarts : t'.starts = t.starts) :
    Advances t t' [] [] where
  running lock j := by
    rw [h.has_iff]
    by_cases hj : j = id
    · subst hj
      simp [Has, he, hs, hs', hl]
    · simp [hj]
  waiting j x := by
    rw [h.job?]
    by_cases hj : j = id
    · subst hj
      simp only [if_pos, he, Option.some.injEq]
      constructor
      · rintro ⟨rfl, hx⟩
        simp [hs'] at hx
      · rintro ⟨⟨rfl, hx⟩, -⟩
        simp [hs] at hx
    · simp [hj]
  waited := by simp
  once := by simp
  starts := by simp [hstarts]
  nextId := h.nextId
  maxRetained := h.maxRetained

theorem SameBut.advances_ended (h : SameBut t t' id e') (hs' : e'.state.isTerminal = true)
    (hstarts : t'.starts = t.starts) : Advances t t' [id] [] where
  running lock j := by
    rw [h.has_iff]
    by_cases hj : j = id
    · have hne : e'.state ≠ .running := by
        intro hrun
        simp [hrun, JobState.isTerminal] at hs'
      simp [hj, hne]
    · simp [hj]
  waiting j x := by
    rw [h.job?]
    by_cases hj : j = id
    · simp only [hj, if_pos, Option.some.injEq, List.mem_singleton, not_true, false_and, and_false,
        iff_false, not_and]
      rintro rfl hw
      simp [hw, JobState.isTerminal] at hs'
    · simp [hj]
  waited := by simp
  once := by simp
  starts := by simp [hstarts]
  nextId := h.nextId
  maxRetained := h.maxRetained

theorem SameBut.advances_begun {body : β} {now : Nat} (h : SameBut t t' id (e.begun now))
    (he : t.job? id = some e) (hw : e.state = .waiting) (hb : e.body = some body)
    (hstarts : t'.starts = t.starts ++ [(id, body)]) : Advances t t' [] [(id, body)] where
  running lock j := by
    rw [h.has_iff]
    by_cases hj : j = id
    · subst hj
      have hstate : e.snapshot.state = .waiting := hw
      simp [Has, he, hstate, JobEntry.begun, JobEntry.state]
    · simp [hj]
  waiting j x := by
    rw [h.job?]
    by_cases hj : j = id
    · simp only [hj, if_pos, Option.some.injEq, List.map_cons, List.map_nil, List.mem_singleton,
        not_true, and_false, iff_false, not_and]
      rintro rfl hx
      simp [JobEntry.begun, JobEntry.state] at hx
    · simp [hj]
  waited := by simp [he, hw, hb]
  once := by simp
  starts := hstarts
  nextId := h.nextId
  maxRetained := h.maxRetained

theorem Forgets.advances {gone : List Nat} (h : Forgets t t' gone)
    (hover : ∀ id ∈ gone, t.Over id) : Advances t t' [] [] where
  running lock j := by
    have hj : t.Has .running lock j → j ∉ gone := by
      rintro ⟨e, he, hs, -⟩ hg
      obtain ⟨e', he', ht⟩ := hover j hg
      cases Option.some.inj (he.symm.trans he')
      simp [hs, JobState.isTerminal] at ht
    by_cases hg : j ∈ gone
    · have hnot : ¬ t'.Has .running lock j := by simp [Has, h.job?, hg]
      have hnot' : ¬ t.Has .running lock j := fun hr => hj hr hg
      simp [hnot, hnot']
    · simp [Has, h.job?, hg]
  waiting j x := by
    rw [h.job?]
    by_cases hg : j ∈ gone
    · simp only [hg, if_pos, reduceCtorEq, false_and, List.not_mem_nil, not_false_eq_true,
        List.map_nil, and_true, false_iff, not_and]
      intro hx hw
      obtain ⟨e', he', ht⟩ := hover j hg
      cases Option.some.inj (hx.symm.trans he')
      simp [hw, JobState.isTerminal] at ht
    · simp [hg]
  waited := by simp
  once := by simp
  starts := by simp [h.starts]
  nextId := h.nextId
  maxRetained := h.maxRetained

end Switchboard.JobTable
