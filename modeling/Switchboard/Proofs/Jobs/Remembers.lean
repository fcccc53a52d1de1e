import Switchboard.Proofs.Jobs.Orderly

namespace Switchboard.JobTable

variable {β : Type} {t t' : JobTable β} {id now : Nat} {e e' : JobEntry β}

/-- The finished jobs are in order, but for some that are yet to be counted among them. -/
structure Remembers (t : JobTable β) (late : List Nat) : Prop where
  nodup : (t.finished ++ late).Nodup
  ended : ∀ id, id ∈ t.finished ++ late ↔ t.Over id
  lasting : ∀ id e, id ∈ t.finished → t.job? id = some e → e.snapshot.transient = false
  few : t.finished.length ≤ t.maxRetained

structure SameOver (t t' : JobTable β) : Prop where
  job? : ∀ j e, e.state.isTerminal = true → (t'.job? j = some e ↔ t.job? j = some e)
  finished : t'.finished = t.finished
  maxRetained : t'.maxRetained = t.maxRetained

theorem SameOver.trans {t'' : JobTable β} (h : SameOver t t') (h' : SameOver t' t'') :
    SameOver t t'' where
  job? j e ht := (h'.job? j e ht).trans (h.job? j e ht)
  finished := h'.finished.trans h.finished
  maxRetained := h'.maxRetained.trans h.maxRetained

theorem SameBut.sameOver (h : SameBut t t' id e') (he : t.job? id = some e)
    (hs : e.state.isTerminal = false) (hs' : e'.state.isTerminal = false) : SameOver t t' where
  job? j x hx := by
    rw [h.job?]
    by_cases hj : j = id
    · subst hj
      rw [if_pos rfl, he]
      constructor
      · rintro ⟨rfl⟩
        simp [hx] at hs'
      · rintro ⟨rfl⟩
        simp [hx] at hs
    · rw [if_neg hj]
  finished := h.finished
  maxRetained := h.maxRetained

theorem sameOver_of_jobs {locks : List (String × LockQueue)} {effects : List (JobEffect β)} :
    SameOver t { t with locks, effects } :=
  ⟨fun _ _ _ => Iff.rfl, rfl, rfl⟩

theorem sameOver_start (hb : t.Bodied) (now id : Nat) : SameOver t (t.start now id) := by
  cases he : t.job? id with
  | none =>
    simp only [start, he]
    exact sameOver_of_jobs
  | some e =>
    cases hbody : e.body with
    | none =>
      simp only [start, he, hbody]
      exact sameOver_of_jobs
    | some body =>
      have hw : e.state = .waiting := (hb id e he).mp (by simp [hbody])
      exact (start_spec now he hbody hw).1.sameOver he (by simp [hw, JobState.isTerminal]) rfl

theorem sameOver_release (hb : t.Bodied) (now id : Nat) : SameOver t (t.release now id) := by
  unfold release
  split
  next => exact sameOver_of_jobs
  next lock _ =>
    split
    next => exact sameOver_of_jobs
    next q _ =>
      generalize (if q.running = some id then { q with running := none }
        else { q with waiting := q.waiting.filter fun w => w != id }) = left
      dsimp only
      split
      next => exact sameOver_of_jobs
      next =>
        split
        next => exact sameOver_of_jobs
        next heir rest _ =>
          exact sameOver_of_jobs.trans
            (sameOver_start (t := (t.setQueue lock ⟨some heir, rest⟩).log _ _) hb now heir)

theorem Remembers.sameOver {late : List Nat} (h : t.Remembers late) (hs : SameOver t t') :
    t'.Remembers late where
  nodup := hs.finished ▸ h.nodup
  ended id := by
    rw [hs.finished, h.ended]
    exact exists_congr fun e => and_congr_left fun ht => (hs.job? id e ht).symm
  lasting id e hid he := by
    rw [hs.finished] at hid
    obtain ⟨x, hx, ht⟩ := (h.ended id).mp (List.mem_append_left late hid)
    cases Option.some.inj (he.symm.trans ((hs.job? id x ht).mpr hx))
    exact h.lasting id e hid hx
  few := by
    rw [hs.finished, hs.maxRetained]
    exact h.few

theorem Remembers.just_ended (h : t.Remembers []) (he : JustEnded t t' id e e')
    (hs : e.state.isTerminal = false) : t'.Remembers [id] := by
  have hover : ∀ j, t'.Over j ↔ t.Over j ∨ j = id := by
    intro j
    unfold Over
    rw [he.same.job?]
    by_cases hj : j = id
    · simp [hj, he.terminal]
    · simp [hj]
  have hnot : id ∉ t.finished := by
    intro hid
    obtain ⟨x, hx, ht⟩ := (h.ended id).mp (by simpa using hid)
    cases Option.some.inj (he.was.symm.trans hx)
    simp [hs] at ht
  have hnodup : t.finished.Nodup := by simpa using h.nodup
  refine ⟨?_, fun j => ?_, fun j x hj hx => ?_, ?_⟩
  · rw [he.same.finished]
    exact List.nodup_append.mpr ⟨hnodup, by simp, by
      rintro a ha b hb rfl
      exact hnot (List.mem_singleton.mp hb ▸ ha)⟩
  · rw [he.same.finished, hover, ← h.ended]
    simp
  · rw [he.same.finished] at hj
    have hne : j ≠ id := fun heq => hnot (heq ▸ hj)
    rw [he.same.job?, if_neg hne] at hx
    exact h.lasting j x hj hx
  · rw [he.same.finished, he.same.maxRetained]
    exact h.few

theorem Entered.sameOver (h : Entered t t' e) (hnew : t.nextId ∉ t.ids)
    (hs : e.state.isTerminal = false) : SameOver t t' where
  job? j x hx := by
    rw [h.job?]
    by_cases hj : j = t.nextId
    · rw [if_pos hj, hj, job?_eq_none_iff.mpr hnew]
      constructor
      · rintro ⟨rfl⟩
        simp [hx] at hs
      · intro hnone
        cases hnone
    · rw [if_neg hj]
  finished := h.finished
  maxRetained := h.maxRetained

theorem Remembers.retire (h : t.Remembers [id]) : (t.retire id).Remembers [] := by
  obtain ⟨e, he, hterminal⟩ := (h.ended id).mp (by simp)
  have hover : ∀ {gone : List Nat}, Forgets t (t.retire id) gone →
      ∀ j, (t.retire id).Over j ↔ t.Over j ∧ j ∉ gone := by
    intro gone hf j
    unfold Over
    rw [hf.job?]
    by_cases hj : j ∈ gone <;> simp [hj]
  obtain ⟨hnodup, -, hdisjoint⟩ := List.nodup_append.mp h.nodup
  cases ht : e.snapshot.transient with
  | true =>
    obtain ⟨hf, hfinished⟩ := retire_transient he ht
    refine ⟨by simpa [hfinished] using hnodup, fun j => ?_, fun j x hj hx => ?_, ?_⟩
    · rw [hover hf, ← h.ended, hfinished]
      have hj : j ∈ t.finished → j ≠ id := fun hj => hdisjoint j hj id (by simp)
      simp only [List.append_nil, List.mem_append, List.mem_singleton]
      tauto
    · rw [hf.job?] at hx
      split at hx
      next => cases hx
      next => exact h.lasting j x (hfinished ▸ hj) hx
    · rw [hfinished, hf.maxRetained]
      exact h.few
  | false =>
    obtain ⟨hf, hfinished⟩ := retire_remembered he ht
    have hsplit := List.take_append_drop t.excess (t.finished ++ [id])
    have hparts := h.nodup
    rw [← hsplit] at hparts
    obtain ⟨-, hdrop, hapart⟩ := List.nodup_append.mp hparts
    refine ⟨by simpa [hfinished] using hdrop, fun j => ?_, fun j x hj hx => ?_, ?_⟩
    · rw [hover hf, ← h.ended, hfinished, List.append_nil]
      have hmem : j ∈ t.finished ++ [id] ↔
          j ∈ (t.finished ++ [id]).take t.excess ∨ j ∈ (t.finished ++ [id]).drop t.excess := by
        rw [← List.mem_append, hsplit]
      have hj : j ∈ (t.finished ++ [id]).drop t.excess →
          j ∉ (t.finished ++ [id]).take t.excess := fun hd hk => hapart j hk j hd rfl
      tauto
    · rw [hf.job?] at hx
      split at hx
      next => cases hx
      next =>
        rw [hfinished] at hj
        rcases List.mem_append.mp (List.mem_of_mem_drop hj) with hj | hj
        · exact h.lasting j x hj hx
        · cases List.mem_singleton.mp hj
          cases Option.some.inj (he.symm.trans hx)
          exact ht
    · rw [hfinished, hf.maxRetained, List.length_drop, List.length_append, List.length_singleton,
        excess]
      omega

/-- Counting a job among the finished ones changes nothing for the unfinished. -/
theorem retire_forgets (h : t.Remembers [id]) :
    ∃ gone, Forgets t (t.retire id) gone ∧ ∀ j ∈ gone, t.Over j := by
  obtain ⟨e, he, -⟩ := (h.ended id).mp (by simp)
  cases ht : e.snapshot.transient with
  | true =>
    refine ⟨_, (retire_transient he ht).1, fun j hj => (h.ended j).mp ?_⟩
    exact List.mem_append_right _ hj
  | false =>
    exact ⟨_, (retire_remembered he ht).1, fun j hj => (h.ended j).mp (List.mem_of_mem_take hj)⟩

end Switchboard.JobTable
