import Switchboard.Proofs.Jobs.Remembers

namespace Switchboard.JobTable

variable {β : Type} {t t' : JobTable β} {id now : Nat} {e e' : JobEntry β} {lock : String}

structure Sound (t : JobTable β) : Prop where
  orderly : t.Orderly
  remembers : t.Remembers []

theorem sound_empty (maxRetained : Nat) : Sound ({ maxRetained } : JobTable β) := by
  have hjob : ∀ j, ({ maxRetained } : JobTable β).job? j = none := fun _ => rfl
  have hhas : ∀ state lock j, ¬ ({ maxRetained } : JobTable β).Has state lock j := by
    simp [Has, hjob]
  refine ⟨⟨?_, ?_, ?_, ?_, fun lock => ?_, hhas _ _, fun id e he => ?_⟩, ⟨?_, ?_, ?_, ?_⟩⟩
  · simp [ids]
  · simp [ids]
  · simp
  · simp
  · exact fun id => ⟨hhas _ _ id, hhas _ _ id⟩
  · simp [hjob] at he
  · simp
  · simp [Over, hjob]
  · simp
  · simp

theorem Sound.withEffects (h : t.Sound) (effects : List (JobEffect β)) :
    Sound { t with effects } :=
  ⟨⟨h.orderly.sorted, h.orderly.numbered, h.orderly.positive, h.orderly.names, h.orderly.queues,
    h.orderly.locked, h.orderly.bodies⟩, h.remembers.sameOver sameOver_of_jobs⟩

theorem Sound.wants (h : t.Sound) (effects : List (JobEffect β)) : (t.wants effects).Sound :=
  h.withEffects _

theorem isTerminal_of_settled (now : Nat) (outcome : Except CallError Json) (e : JobEntry β) :
    (e.settled now outcome).state.isTerminal = true := by
  have hstate : (e.settled now outcome).state = endState (settled e.cancelled outcome) := by
    unfold JobEntry.settled JobEntry.state
    cases settled e.cancelled outcome <;> rfl
  rw [hstate]
  exact endState_isTerminal _

theorem lock_of_settled (now : Nat) (outcome : Except CallError Json) (e : JobEntry β) :
    (e.settled now outcome).snapshot.lock = e.snapshot.lock := by
  unfold JobEntry.settled
  cases settled e.cancelled outcome <;> rfl

theorem Orderly.body_of_not_waiting (h : t.Orderly) (he : t.job? id = some e)
    (hs : e.state ≠ .waiting) : e.body = none := by
  have hb := (h.bodies id e he).not.mpr hs
  simpa using hb

theorem sound_retire {ended : List Nat} {started : List (Nat × β)} (ho : t'.Orderly)
    (hr : t'.Remembers [id]) (hadv : Advances t t' ended started) :
    (t'.retire id).Sound ∧ Advances t (t'.retire id) ended started := by
  obtain ⟨gone, hf, hover⟩ := retire_forgets hr
  refine ⟨⟨ho.forgets hf hover, hr.retire⟩, ?_⟩
  simpa using hadv.trans (hf.advances hover) (by simp)

theorem Sound.justEnded (h : t.Sound) (he : t.job? id = some e) (hrun : e.state = .running)
    (now : Nat) (outcome : Except CallError Json) :
    JustEnded t (t.noteEnd now id outcome e) id e (e.settled now outcome) := by
  obtain ⟨hsame, hstarts⟩ := noteEnd_spec now outcome he hrun
  have hbody : e.body = none := h.orderly.body_of_not_waiting he (by simp [hrun])
  exact ⟨he, hsame, isTerminal_of_settled now outcome e, lock_of_settled now outcome e, hbody,
    hstarts⟩

theorem Sound.remembers_release (h : t.Sound) (hended : JustEnded t t' id e e')
    (hs : e.state.isTerminal = false) (now : Nat) : (t'.release now id).Remembers [id] :=
  (h.remembers.just_ended hended hs).sameOver
    (sameOver_release (hended.bodied h.orderly.bodies) now id)

theorem Sound.finish (h : t.Sound) (he : t.job? id = some e) (hrun : e.state = .running)
    (now : Nat) (outcome : Except CallError Json) :
    ∃ started, (t.finish now id outcome).Sound ∧
      Advances t (t.finish now id outcome) [id] started := by
  have hended := h.justEnded he hrun now outcome
  obtain ⟨started, ho, hadv⟩ := hended.release h.orderly hrun now
  have hr := h.remembers_release hended (by simp [hrun, JobState.isTerminal]) now
  rw [finish_eq now outcome he]
  exact ⟨started, sound_retire ho hr hadv⟩

theorem Sound.dismiss (state : JobState) (h : t.Sound) (he : t.job? id = some e)
    (hwait : e.state = .waiting) (hstate : state.isTerminal = true)
    (hnext : JobState.canBecome .waiting state = true) (now : Nat) (error : CallError) :
    ((t.release now id).finishUnstarted now id state error).Sound ∧
      Advances t ((t.release now id).finishUnstarted now id state error) [id] [] := by
  obtain ⟨lock, holder, waiting, -, -, -, hrelease⟩ := h.orderly.release_waiting he hwait now
  have he' : (t.release now id).job? id = some e := by rw [hrelease]; exact he
  obtain ⟨t', hsame, hstarts, hfinish⟩ :=
    finishUnstarted_spec now error he' (hwait ▸ hnext)
  have hended : JustEnded (t.release now id) t' id e (e.dismissed now state error) :=
    ⟨he', hsame, hstate, rfl, rfl, hstarts⟩
  obtain ⟨ho, hadv⟩ := h.orderly.dismiss he hwait hended
  have hover : SameOver t (t.release now id) := sameOver_release h.orderly.bodies now id
  have hr := (h.remembers.sameOver hover).just_ended hended (by simp [hwait, JobState.isTerminal])
  rw [hfinish]
  exact sound_retire ho hr hadv

theorem Sound.lockTimedOut (h : t.Sound) (he : t.job? id = some e) (hwait : e.state = .waiting)
    (now : Nat) :
    (t.lockTimedOut now id).Sound ∧ Advances t (t.lockTimedOut now id) [id] [] := by
  simp only [JobTable.lockTimedOut, he, hwait, if_true, log_eq]
  obtain ⟨hsound, hadv⟩ := (h.wants [_]).dismiss .failed he hwait rfl rfl now
    (.lockTimeout (e.snapshot.lock.getD ""))
  exact ⟨hsound, by simpa using (advances_wants rfl).trans hadv (by simp)⟩

theorem Sound.abort_waiting (h : t.Sound) (he : t.job? id = some e) (hwait : e.state = .waiting)
    (now : Nat) :
    (t.abort now id).1.Sound ∧ Advances t (t.abort now id).1 [id] [] := by
  simp only [abort, he, hwait, log_eq]
  obtain ⟨hsound, hadv⟩ := h.dismiss .aborted he hwait rfl rfl now .aborted
  exact ⟨hsound.wants _, by simpa using hadv.trans (advances_wants rfl) (by simp)⟩

theorem Sound.sameBut_running (h : t.Sound) (he : t.job? id = some e) (hsame : SameBut t t' id e')
    (hs : e.state = .running) (hs' : e'.state = .running)
    (hl : e'.snapshot.lock = e.snapshot.lock) (hb : e'.body = e.body)
    (hstarts : t'.starts = t.starts) : t'.Sound ∧ Advances t t' [] [] := by
  refine ⟨⟨h.orderly.sameBut_running he hsame hs hs' hl hb hstarts, ?_⟩,
    hsame.advances_running he hs hs' hl hstarts⟩
  exact h.remembers.sameOver (hsame.sameOver he (by simp [hs, JobState.isTerminal])
    (by simp [hs', JobState.isTerminal]))

theorem Sound.progress (h : t.Sound) (id percent : Nat) (description : Option String) :
    (t.progress id percent description).Sound ∧
      Advances t (t.progress id percent description) [] [] := by
  have hsame : t.Sound ∧ Advances t t [] [] := ⟨h, advances_refl t⟩
  cases he : t.job? id with
  | none => simpa [JobTable.progress, snapshot?, he] using hsame
  | some e =>
    rcases sameBut_progress percent description he with heq | ⟨hs, hbut⟩
    · rw [heq]
      exact hsame
    · exact h.sameBut_running he hbut hs hs rfl rfl (starts_progress t id percent description)

theorem Sound.abort_running (h : t.Sound) (he : t.job? id = some e) (hs : e.state = .running)
    (now : Nat) : (t.abort now id).1.Sound ∧ Advances t (t.abort now id).1 [] [] := by
  cases ha : e.snapshot.abortable with
  | false =>
    simp only [abort, he, hs, ha]
    exact ⟨h, advances_refl t⟩
  | true =>
    simp only [abort, he, hs, ha, if_true, log_eq, want_eq]
    have hsame : SameBut t (t.update id fun e => { e with cancelled := true }) id
        { e with cancelled := true } :=
      sameBut_update (f := fun e => { e with cancelled := true }) he fun _ hid => hid
    have hstarts : (((t.update id fun e => { e with cancelled := true }).wants [.cancel id]).wants
        [.log ⟨.info, s!"Abort requested for job {id}"⟩]).starts = t.starts := by
      rw [starts_wants, starts_wants, starts_update]
      simp [List.filterMap_cons, JobEffect.started?]
    exact h.sameBut_running he ((hsame.wants _).wants _) hs hs rfl rfl hstarts

theorem Sound.abort (h : t.Sound) (now id : Nat) :
    (t.abort now id).1.Sound ∧ ∃ ended, Advances t (t.abort now id).1 ended [] ∧
      ∀ j, j ∈ ended ↔ j = id ∧ ∃ lock, t.Has .waiting lock id := by
  cases he : t.job? id with
  | none =>
    simp only [JobTable.abort, he]
    exact ⟨h, [], advances_refl t, by simp [Has, he]⟩
  | some e =>
    cases hs : e.state with
    | waiting =>
      obtain ⟨hsound, hadv⟩ := h.abort_waiting he hs now
      exact ⟨hsound, [id], hadv, by simp [Has, he, hs]⟩
    | running =>
      obtain ⟨hsound, hadv⟩ := h.abort_running he hs now
      exact ⟨hsound, [], hadv, by simp [Has, he, hs]⟩
    | success | failed | aborted =>
      simp only [JobTable.abort, he, hs]
      exact ⟨h, [], advances_refl t, by simp [Has, he, hs]⟩

/-- A timer ends its job only if the job still waits. -/
theorem Sound.timeout (h : t.Sound) (now id : Nat) :
    (t.lockTimedOut now id).Sound ∧ ∃ ended, Advances t (t.lockTimedOut now id) ended [] ∧
      ∀ j, j ∈ ended ↔ j = id ∧ ∃ lock, t.Has .waiting lock id := by
  cases he : t.job? id with
  | none =>
    simp only [JobTable.lockTimedOut, he]
    exact ⟨h, [], advances_refl t, by simp [Has, he]⟩
  | some e =>
    by_cases hw : e.state = .waiting
    · obtain ⟨hsound, hadv⟩ := h.lockTimedOut he hw now
      exact ⟨hsound, [id], hadv, by simp [Has, he, hw]⟩
    · simp only [JobTable.lockTimedOut, he, hw, if_false]
      exact ⟨h, [], advances_refl t, by simp [Has, he, hw]⟩

theorem Sound.entered (h : t.Sound) (hnew : Entered t t' e)
    (hnames : (t'.locks.map Prod.fst).Nodup) (hqueues : ∀ lock, t'.Fits lock (t'.queue? lock))
    (hunfinished : e.state.isTerminal = false)
    (hlocked : e.state = .waiting → e.snapshot.lock ≠ none)
    (hbody : e.body.isSome = true ↔ e.state = .waiting) : t'.Sound :=
  ⟨h.orderly.entered hnew hnames hqueues hlocked hbody,
    h.remembers.sameOver (hnew.sameOver h.orderly.nextId_not_mem hunfinished)⟩

section Submit

variable {job : NewJob β}

theorem locks_enter (t : JobTable β) (now : Nat) (job : NewJob β) :
    (t.enter now job).locks = t.locks := by
  rw [enter, publish_eq]
  rfl

theorem queue?_enter (t : JobTable β) (now : Nat) (job : NewJob β) (lock : String) :
    (t.enter now job).queue? lock = t.queue? lock := by
  rw [queue?, locks_enter, queue?]

theorem Sound.start_entered (h : t.Sound) (hnew : Entered t t' (fresh now t.nextId job))
    (hadv : Advances (t.enter now job) t' [] []) (hnames : (t'.locks.map Prod.fst).Nodup)
    (hqueues : ∀ t'', Entered t t'' ((fresh now t.nextId job).begun now) →
      ∀ lock, t''.Fits lock (t'.queue? lock)) :
    (t'.start now t.nextId).Sound ∧
      Advances (t.enter now job) (t'.start now t.nextId) [] [(t.nextId, job.body)] := by
  have hjob : t'.job? t.nextId = some (fresh now t.nextId job) := by rw [hnew.job?, if_pos rfl]
  obtain ⟨hsame, hstarts⟩ := start_spec now hjob rfl rfl
  have hbegun := hnew.sameBut hsame
  refine ⟨h.entered hbegun (hsame.locks ▸ hnames) (fun lock => ?_) rfl ?_ ?_, ?_⟩
  · rw [hsame.queue?]
    exact hqueues _ hbegun lock
  · simp [JobEntry.begun, JobEntry.state]
  · simp [JobEntry.begun, JobEntry.state]
  · exact hadv.trans (hsame.advances_begun hjob rfl rfl hstarts) (by simp)

theorem Sound.submit_unlocked (h : t.Sound) (now : Nat) (hl : job.lock = none) :
    ((t.enter now job).start now t.nextId).Sound ∧
      Advances (t.enter now job) ((t.enter now job).start now t.nextId) []
        [(t.nextId, job.body)] := by
  refine h.start_entered (h.orderly.enter now job) (advances_refl _) ?_ fun t'' hnew lock => ?_
  · rw [locks_enter]
    exact h.orderly.names
  · rw [queue?_enter]
    exact hnew.fits_other h.orderly (h.orderly.queues lock) (by simp [JobEntry.begun, fresh, hl])

theorem Sound.submit_free (h : t.Sound) (now : Nat) (hl : job.lock = some lock)
    (hq : t.queue? lock = none) (timeout : Option Nat) :
    ((t.enter now job).queueUp now t.nextId lock timeout).Sound ∧
      Advances (t.enter now job) ((t.enter now job).queueUp now t.nextId lock timeout) []
        [(t.nextId, job.body)] := by
  have hnew := (h.orderly.enter now job).setQueue lock ⟨some t.nextId, []⟩
  rw [queueUp_free ((queue?_enter t now job lock).trans hq)]
  refine h.start_entered hnew (advances_setQueue _ _ _) ?_ fun t'' hnew other => ?_
  · exact nodup_names_setQueue (locks_enter t now job ▸ h.orderly.names) lock _
  · rw [queue?_setQueue, queue?_enter]
    by_cases hother : other = lock
    · rw [if_pos hother, hother]
      exact hnew.fits_taken (hq ▸ h.orderly.queues lock) rfl (by simp [JobEntry.begun, fresh, hl])
    · rw [if_neg hother]
      refine hnew.fits_other h.orderly (h.orderly.queues other) ?_
      simp [JobEntry.begun, fresh, hl, Ne.symm hother]

theorem Sound.submit_held {q : LockQueue} (h : t.Sound) (now : Nat) (hl : job.lock = some lock)
    (hq : t.queue? lock = some q) (timeout : Option Nat) :
    ((t.enter now job).queueUp now t.nextId lock timeout).Sound ∧
      Advances (t.enter now job) ((t.enter now job).queueUp now t.nextId lock timeout) [] [] := by
  have hfits := hq ▸ h.orderly.queues lock
  obtain ⟨holder, hholder, -⟩ := hq ▸ h.orderly.queues lock
  obtain ⟨running, waiting⟩ := q
  cases hholder
  have hqueued := queueUp_held now t.nextId timeout ((queue?_enter t now job lock).trans hq)
  generalize heffects : (_ :: timeout.toList.map (.armTimer t.nextId) : List (JobEffect β)) =
    effects at hqueued
  have hnone : effects.filterMap JobEffect.started? = [] := by
    rw [← heffects]
    cases timeout <;> rfl
  have hnew := ((h.orderly.enter now job).setQueue lock ⟨some holder, waiting ++ [t.nextId]⟩).wants
    effects
  rw [hqueued]
  refine ⟨h.entered hnew ?_ (fun other => ?_) rfl ?_ ?_, ?_⟩
  · exact nodup_names_setQueue (locks_enter t now job ▸ h.orderly.names) lock _
  · rw [queue?_wants, queue?_setQueue, queue?_enter]
    by_cases hother : other = lock
    · rw [if_pos hother, hother]
      exact hnew.fits_joined h.orderly hfits rfl hl
    · rw [if_neg hother]
      refine hnew.fits_other h.orderly (h.orderly.queues other) ?_
      simp [fresh, hl, Ne.symm hother]
  · simp [fresh, hl]
  · simp [fresh, JobEntry.state]
  · exact (advances_setQueue _ lock _).trans (advances_wants hnone) (by simp)

/-- A job that no other stands for is taken in: it starts, or waits in its queue. -/
theorem Sound.submit (h : t.Sound) (now : Nat) (hnone : t.standIn? job = none) :
    (t.submit now job).1.Sound ∧
      ∃ started, Advances (t.enter now job) (t.submit now job).1 [] started := by
  simp only [JobTable.submit, hnone]
  cases hl : job.lock with
  | none =>
    obtain ⟨hsound, hadv⟩ := h.submit_unlocked now hl
    exact ⟨hsound, _, hadv⟩
  | some lock =>
    cases hq : t.queue? lock with
    | none =>
      obtain ⟨hsound, hadv⟩ := h.submit_free now hl hq job.lockTimeout
      exact ⟨hsound, _, hadv⟩
    | some q =>
      obtain ⟨hsound, hadv⟩ := h.submit_held now hl hq job.lockTimeout
      exact ⟨hsound, _, hadv⟩

end Submit

end Switchboard.JobTable
