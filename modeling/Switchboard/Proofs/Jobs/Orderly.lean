import Switchboard.Proofs.Jobs.Advance

namespace Switchboard.JobTable

variable {β : Type} {t t' : JobTable β} {id now : Nat} {e e' : JobEntry β} {lock : String}

/-- The queue of a lock agrees with the unfinished jobs that ask for the lock: the holder is the
only one that runs, and the others wait, behind it and in the order of their numbers. -/
def Fits (t : JobTable β) (lock : String) : Option LockQueue → Prop
  | none => ∀ id, ¬ t.Has .running (some lock) id ∧ ¬ t.Has .waiting (some lock) id
  | some q => ∃ holder, q.running = some holder ∧ (holder :: q.waiting).Pairwise (· < ·) ∧
      (∀ id, t.Has .running (some lock) id ↔ id = holder) ∧
      ∀ id, t.Has .waiting (some lock) id ↔ id ∈ q.waiting

def Bodied (t : JobTable β) : Prop :=
  ∀ id e, t.job? id = some e → (e.body.isSome = true ↔ e.state = .waiting)

/-- The unfinished jobs are in order. -/
structure Orderly (t : JobTable β) : Prop where
  sorted : t.ids.Pairwise (· < ·)
  numbered : ∀ id ∈ t.ids, 0 < id ∧ id < t.nextId
  positive : 0 < t.nextId
  names : (t.locks.map Prod.fst).Nodup
  queues : ∀ lock, t.Fits lock (t.queue? lock)
  locked : ∀ id, ¬ t.Has .waiting none id
  bodies : t.Bodied

theorem Fits.congr {q : Option LockQueue} (h : t.Fits lock q)
    (hrun : ∀ id, t'.Has .running (some lock) id ↔ t.Has .running (some lock) id)
    (hwait : ∀ id, t'.Has .waiting (some lock) id ↔ t.Has .waiting (some lock) id) :
    t'.Fits lock q := by
  cases q with
  | none =>
    intro id
    rw [hrun, hwait]
    exact h id
  | some q =>
    obtain ⟨holder, hq, hsort, hr, hw⟩ := h
    exact ⟨holder, hq, hsort, fun id => (hrun id).trans (hr id), fun id => (hwait id).trans (hw id)⟩

theorem Advances.fits {ended : List Nat} {started : List (Nat × β)} {q : Option LockQueue}
    (h : Advances t t' ended started) (hfits : t.Fits lock q)
    (hended : ∀ id ∈ ended, ∀ state, ¬ t.Has state (some lock) id)
    (hstarted : ∀ s ∈ started, ∀ state, ¬ t.Has state (some lock) s.1) : t'.Fits lock q := by
  have hstarted' : ∀ id ∈ started.map Prod.fst, ∀ state, ¬ t.Has state (some lock) id := by
    intro id hs
    obtain ⟨s, hmem, rfl⟩ := List.mem_map.mp hs
    exact hstarted s hmem
  refine hfits.congr (fun id => ?_) fun id => ?_
  · rw [h.running]
    constructor
    · rintro (⟨hr, -⟩ | ⟨hw, hs⟩)
      · exact hr
      · exact absurd hw (hstarted' id hs _)
    · exact fun hr => .inl ⟨hr, fun hm => hended id hm _ hr⟩
  · rw [h.has_waiting]
    constructor
    · exact fun hw => hw.1
    · exact fun hw => ⟨hw, fun hm => hended id hm _ hw, fun hs => hstarted' id hs _ hw⟩

theorem Orderly.holder (h : t.Orderly) (hrun : t.Has .running (some lock) id) :
    ∃ waiting, t.queue? lock = some ⟨some id, waiting⟩ := by
  have hfits := h.queues lock
  cases hq : t.queue? lock with
  | none =>
    rw [hq] at hfits
    exact absurd hrun (hfits id).1
  | some q =>
    rw [hq] at hfits
    obtain ⟨holder, hholder, -, hr, -⟩ := hfits
    have heq := (hr id).mp hrun
    exact ⟨q.waiting, by rw [heq, ← hholder]⟩

theorem Orderly.holder_unique {other : Nat} (h : t.Orderly) (hid : t.Has .running (some lock) id)
    (hother : t.Has .running (some lock) other) : id = other := by
  obtain ⟨waiting, hq⟩ := h.holder hid
  obtain ⟨waiting', hq'⟩ := h.holder hother
  rw [hq] at hq'
  simp only [Option.some.injEq, LockQueue.mk.injEq] at hq'
  exact hq'.1

theorem Orderly.waiter (h : t.Orderly) (hwait : t.Has .waiting (some lock) id) :
    ∃ holder waiting, t.queue? lock = some ⟨some holder, waiting⟩ ∧ id ∈ waiting ∧ holder < id := by
  have hfits := h.queues lock
  cases hq : t.queue? lock with
  | none =>
    rw [hq] at hfits
    exact absurd hwait (hfits id).2
  | some q =>
    rw [hq] at hfits
    obtain ⟨holder, hholder, hsort, -, hw⟩ := hfits
    have hmem := (hw id).mp hwait
    exact ⟨holder, q.waiting, by rw [← hholder], hmem, (List.pairwise_cons.mp hsort).1 id hmem⟩

theorem nodup_names_dropQueue (h : (t.locks.map Prod.fst).Nodup) (lock : String) :
    ((t.dropQueue lock).locks.map Prod.fst).Nodup :=
  h.sublist (List.filter_sublist.map _)

theorem nodup_names_setQueue (h : (t.locks.map Prod.fst).Nodup) (lock : String) (q : LockQueue) :
    ((t.setQueue lock q).locks.map Prod.fst).Nodup := by
  refine List.nodup_cons.mpr ⟨?_, nodup_names_dropQueue h lock⟩
  simp [dropQueue]

theorem SameBut.bodied (h : SameBut t t' id e') (hb : t.Bodied)
    (he' : e'.body.isSome = true ↔ e'.state = .waiting) : t'.Bodied := by
  intro j x hx
  rw [h.job?] at hx
  by_cases hj : j = id
  · rw [if_pos hj] at hx
    cases Option.some.inj hx
    exact he'
  · rw [if_neg hj] at hx
    exact hb j x hx

theorem Orderly.advance {ended : List Nat} {started : List (Nat × β)} (h : t.Orderly)
    (hadv : Advances t t' ended started) (hids : t'.ids = t.ids)
    (hnames : (t'.locks.map Prod.fst).Nodup) (hqueues : ∀ lock, t'.Fits lock (t'.queue? lock))
    (hbodies : t'.Bodied) : t'.Orderly where
  sorted := hids ▸ h.sorted
  numbered := by
    rw [hids, hadv.nextId]
    exact h.numbered
  positive := hadv.nextId ▸ h.positive
  names := hnames
  queues := hqueues
  locked id hw := h.locked id ((hadv.has_waiting none id).mp hw).1
  bodies := hbodies

theorem Orderly.sameBut_running (h : t.Orderly) (he : t.job? id = some e)
    (hsame : SameBut t t' id e') (hs : e.state = .running) (hs' : e'.state = .running)
    (hl : e'.snapshot.lock = e.snapshot.lock) (hb : e'.body = e.body)
    (hstarts : t'.starts = t.starts) : t'.Orderly := by
  have hadv := hsame.advances_running he hs hs' hl hstarts
  have hbody : e'.body.isSome = true ↔ e'.state = .waiting := by
    rw [hb, hs', h.bodies id e he, hs]
  refine h.advance hadv hsame.ids (hsame.locks ▸ h.names) (fun lock => ?_)
    (hsame.bodied h.bodies hbody)
  rw [hsame.queue?]
  exact hadv.fits (h.queues lock) (by simp) (by simp)

theorem Orderly.fits_other {ended : List Nat} {started : List (Nat × β)} {held : Option String}
    (h : t.Orderly) (hadv : Advances t t' ended started)
    (hended : ∀ id ∈ ended, ∃ state, t.Has state held id)
    (hstarted : ∀ s ∈ started, ∃ state, t.Has state held s.1) (hne : held ≠ some lock) :
    t'.Fits lock (t.queue? lock) := by
  refine hadv.fits (h.queues lock) (fun id hid state hhas => ?_) fun s hs state hhas => ?_
  · obtain ⟨state', hheld⟩ := hended id hid
    exact hne (hheld.unique hhas).2
  · obtain ⟨state', hheld⟩ := hstarted s hs
    exact hne (hheld.unique hhas).2

theorem Fits.holder_ended (hfits : t.Fits lock (some ⟨some id, []⟩))
    (hadv : Advances t t' [id] []) : t'.Fits lock none := by
  obtain ⟨holder, hholder, -, hr, hw⟩ := hfits
  cases Option.some.inj hholder
  intro j
  rw [hadv.running, hadv.has_waiting, hr, hw]
  simp

theorem Fits.handed_on {next : Nat} {rest : List Nat} {body : β}
    (hfits : t.Fits lock (some ⟨some id, next :: rest⟩))
    (hadv : Advances t t' [id] [(next, body)]) : t'.Fits lock (some ⟨some next, rest⟩) := by
  obtain ⟨holder, hholder, hsort, hr, hw⟩ := hfits
  cases Option.some.inj hholder
  obtain ⟨hlow, hsort'⟩ := List.pairwise_cons.mp hsort
  have hlow' := (List.pairwise_cons.mp hsort').1
  refine ⟨next, rfl, hsort', fun j => ?_, fun j => ?_⟩
  · rw [hadv.running, hr, hw]
    simp only [List.mem_cons, List.not_mem_nil, or_false, List.map_cons, List.map_nil]
    tauto
  · rw [hadv.has_waiting, hw]
    simp only [List.mem_cons, List.not_mem_nil, or_false, List.map_cons, List.map_nil]
    constructor
    · rintro ⟨hj | hj, -, hjn⟩
      · exact absurd hj hjn
      · exact hj
    · intro hj
      have hnext := hlow' j hj
      have hholder := hlow j (by simp [hj])
      exact ⟨.inr hj, by omega, by omega⟩

/-- What a job that has just ended leaves behind, before its lock is released. -/
structure JustEnded (t t' : JobTable β) (id : Nat) (e e' : JobEntry β) : Prop where
  was : t.job? id = some e
  same : SameBut t t' id e'
  terminal : e'.state.isTerminal = true
  lock : e'.snapshot.lock = e.snapshot.lock
  body : e'.body = none
  starts : t'.starts = t.starts

namespace JustEnded

theorem now_is (h : JustEnded t t' id e e') : t'.job? id = some e' := by
  rw [h.same.job?, if_pos rfl]

theorem advances (h : JustEnded t t' id e e') : Advances t t' [id] [] :=
  h.same.advances_ended h.terminal h.starts

theorem bodied (h : JustEnded t t' id e e') (hb : t.Bodied) : t'.Bodied := by
  refine h.same.bodied hb ⟨fun hbody => ?_, fun hw => ?_⟩
  · simp [h.body] at hbody
  · have hterminal := h.terminal
    simp [hw, JobState.isTerminal] at hterminal

theorem has (h : JustEnded t t' id e e') : ∀ j ∈ [id], ∃ state, t.Has state e.snapshot.lock j := by
  intro j hj
  cases List.mem_singleton.mp hj
  exact ⟨e.state, e, h.was, rfl, rfl⟩

theorem release_unlocked (h : JustEnded t t' id e e') (ho : t.Orderly)
    (hl : e.snapshot.lock = none) : (t'.release now id).Orderly ∧
      Advances t (t'.release now id) [id] [] := by
  rw [JobTable.release_unlocked h.now_is (h.lock.trans hl)]
  refine ⟨ho.advance h.advances h.same.ids (h.same.locks ▸ ho.names)
    (fun lock => ?_) (h.bodied ho.bodies), h.advances⟩
  rw [h.same.queue?]
  exact ho.fits_other h.advances h.has (by simp) (by simp [hl])

theorem release_last (h : JustEnded t t' id e e') (ho : t.Orderly)
    (hl : e.snapshot.lock = some lock) (hq : t.queue? lock = some ⟨some id, []⟩) :
    (t'.release now id).Orderly ∧ Advances t (t'.release now id) [id] [] := by
  have hq' : t'.queue? lock = some ⟨some id, []⟩ := (h.same.queue? lock).trans hq
  have hadv : Advances t (t'.dropQueue lock) [id] [] :=
    h.advances.trans (advances_dropQueue t' lock) (by simp)
  rw [JobTable.release_last h.now_is (h.lock.trans hl) hq']
  refine ⟨ho.advance hadv h.same.ids
    (nodup_names_dropQueue (h.same.locks ▸ ho.names) lock) (fun other => ?_)
    (h.bodied ho.bodies), hadv⟩
  rw [queue?_dropQueue, h.same.queue?]
  by_cases hother : other = lock
  · rw [if_pos hother, hother]
    exact (hq ▸ ho.queues lock).holder_ended hadv
  · rw [if_neg hother]
    exact ho.fits_other hadv h.has (by simp) (by simp [hl, Ne.symm hother])

/-- The job at the head of the queue waits with its body, also after the holder has ended. -/
theorem next_waits {next : Nat} {rest : List Nat} (h : JustEnded t t' id e e') (ho : t.Orderly)
    (hq : t.queue? lock = some ⟨some id, next :: rest⟩) :
    ∃ x body, t.job? next = some x ∧ t'.job? next = some x ∧ x.body = some body ∧
      x.state = .waiting ∧ x.snapshot.lock = some lock ∧ next ≠ id := by
  obtain ⟨holder, hholder, hsort, -, hw⟩ := hq ▸ ho.queues lock
  cases Option.some.inj hholder
  obtain ⟨x, hx, hxw, hxl⟩ := (hw next).mpr (by simp)
  obtain ⟨body, hbx⟩ := Option.isSome_iff_exists.mp ((ho.bodies next x hx).mpr hxw)
  have hne : next ≠ id := Nat.ne_of_gt ((List.pairwise_cons.mp hsort).1 next (by simp))
  have hx' : t'.job? next = some x := by rw [h.same.job?, if_neg hne, hx]
  exact ⟨x, body, hx, hx', hbx, hxw, hxl, hne⟩

theorem release_next {next : Nat} {rest : List Nat} (h : JustEnded t t' id e e') (ho : t.Orderly)
    (hl : e.snapshot.lock = some lock) (hq : t.queue? lock = some ⟨some id, next :: rest⟩)
    (now : Nat) :
    ∃ body, (t'.release now id).Orderly ∧ Advances t (t'.release now id) [id] [(next, body)] ∧
      (t'.release now id).queue? lock = some ⟨some next, rest⟩ := by
  obtain ⟨x, body, hx, hx', hbx, hxw, hxl, -⟩ := h.next_waits ho hq
  have hq' : t'.queue? lock = some ⟨some id, next :: rest⟩ := (h.same.queue? lock).trans hq
  obtain ⟨hgo, hstarts⟩ := JobTable.release_next now h.now_is (h.lock.trans hl) hq' hx' hbx hxw
  have hset : Advances t (t'.setQueue lock ⟨some next, rest⟩) [id] [] :=
    h.advances.trans (advances_setQueue t' lock _) (by simp)
  have hadv : Advances t (t'.release now id) [id] [(next, body)] :=
    hset.trans (hgo.advances_begun hx' hxw hbx hstarts) (by simp)
  have hbodied : (t'.setQueue lock ⟨some next, rest⟩).Bodied := h.bodied ho.bodies
  refine ⟨body, ho.advance hadv (hgo.ids.trans h.same.ids) ?_
    (fun other => ?_) (hgo.bodied hbodied (by simp [JobEntry.begun, JobEntry.state])), hadv, ?_⟩
  · rw [hgo.locks]
    exact nodup_names_setQueue (h.same.locks ▸ ho.names) lock _
  · rw [hgo.queue?, queue?_setQueue, h.same.queue?]
    by_cases hother : other = lock
    · rw [if_pos hother, hother]
      exact (hq ▸ ho.queues lock).handed_on hadv
    · rw [if_neg hother]
      refine ho.fits_other hadv h.has (fun s hs => ?_) (by simp [hl, Ne.symm hother])
      cases List.mem_singleton.mp hs
      exact ⟨x.state, x, hx, rfl, hxl.trans hl.symm⟩
  · rw [hgo.queue?, queue?_setQueue, if_pos rfl]

theorem release (h : JustEnded t t' id e e') (ho : t.Orderly) (hrun : e.state = .running)
    (now : Nat) :
    ∃ started, (t'.release now id).Orderly ∧ Advances t (t'.release now id) [id] started := by
  cases hl : e.snapshot.lock with
  | none => exact ⟨[], h.release_unlocked ho hl⟩
  | some lock =>
    obtain ⟨waiting, hq⟩ := ho.holder ⟨e, h.was, hrun, hl⟩
    cases waiting with
    | nil => exact ⟨[], h.release_last ho hl hq⟩
    | cons next rest =>
      obtain ⟨body, ho', hadv, -⟩ := h.release_next ho hl hq now
      exact ⟨_, ho', hadv⟩

end JustEnded

theorem Fits.left {q : LockQueue} {holder : Nat} (hfits : t.Fits lock (some q))
    (hholder : q.running = some holder) (hne : holder ≠ id) (hadv : Advances t t' [id] []) :
    t'.Fits lock (some { q with waiting := q.waiting.filter fun w => w != id }) := by
  obtain ⟨holder', hholder', hsort, hr, hw⟩ := hfits
  cases Option.some.inj (hholder.symm.trans hholder')
  refine ⟨holder, hholder, hsort.sublist (List.filter_sublist.cons_cons holder), fun j => ?_,
    fun j => ?_⟩
  · rw [hadv.running, hr]
    simp only [List.mem_singleton, List.map_nil, List.not_mem_nil, and_false, or_false]
    constructor
    · exact fun hj => hj.1
    · intro hj
      subst hj
      exact ⟨rfl, hne⟩
  · rw [hadv.has_waiting, hw]
    simp

theorem Orderly.release_waiting (ho : t.Orderly) (he : t.job? id = some e)
    (hwait : e.state = .waiting) (now : Nat) :
    ∃ lock holder waiting, e.snapshot.lock = some lock ∧
      t.queue? lock = some ⟨some holder, waiting⟩ ∧ holder ≠ id ∧
      t.release now id = t.setQueue lock ⟨some holder, waiting.filter fun w => w != id⟩ := by
  cases hl : e.snapshot.lock with
  | none => exact absurd ⟨e, he, hwait, hl⟩ (ho.locked id)
  | some lock =>
    obtain ⟨holder, waiting, hq, -, hlt⟩ := ho.waiter ⟨e, he, hwait, hl⟩
    exact ⟨lock, holder, waiting, rfl, hq, Nat.ne_of_lt hlt,
      release_waiter he hl hq rfl (Nat.ne_of_lt hlt)⟩

theorem Orderly.dismiss (ho : t.Orderly) (he : t.job? id = some e) (hwait : e.state = .waiting)
    (h : JustEnded (t.release now id) t' id e e') : t'.Orderly ∧ Advances t t' [id] [] := by
  obtain ⟨lock, holder, waiting, hl, hq, hne, hrelease⟩ := ho.release_waiting he hwait now
  rw [hrelease] at h
  have hadv : Advances t t' [id] [] := (advances_setQueue t lock _).trans h.advances (by simp)
  refine ⟨ho.advance hadv h.same.ids ?_ (fun other => ?_) (h.bodied ho.bodies), hadv⟩
  · rw [h.same.locks]
    exact nodup_names_setQueue ho.names lock _
  · rw [h.same.queue?, queue?_setQueue]
    by_cases hother : other = lock
    · rw [if_pos hother, hother]
      exact (hq ▸ ho.queues lock).left rfl hne hadv
    · rw [if_neg hother]
      exact ho.fits_other hadv h.has (by simp) (by simp [hl, Ne.symm hother])

theorem Orderly.forgets {gone : List Nat} (h : t.Orderly) (hf : Forgets t t' gone)
    (hover : ∀ id ∈ gone, t.Over id) : t'.Orderly where
  sorted := hf.ids ▸ h.sorted.sublist List.filter_sublist
  numbered id hid := by
    rw [hf.ids] at hid
    rw [hf.nextId]
    exact h.numbered id (List.mem_of_mem_filter hid)
  positive := hf.nextId ▸ h.positive
  names := hf.locks ▸ h.names
  queues lock := by
    have hq : t'.queue? lock = t.queue? lock := by simp [queue?, hf.locks]
    rw [hq]
    exact (hf.advances hover).fits (h.queues lock) (by simp) (by simp)
  locked id hw := h.locked id (((hf.advances hover).has_waiting none id).mp hw).1
  bodies j x hx := by
    rw [hf.job?] at hx
    split at hx
    next => cases hx
    next => exact h.bodies j x hx

/-- One table is another with a new job, whatever has become of the queues. -/
structure Entered (t t' : JobTable β) (e : JobEntry β) : Prop where
  job? : ∀ j, t'.job? j = if j = t.nextId then some e else t.job? j
  ids : t'.ids = t.ids ++ [t.nextId]
  finished : t'.finished = t.finished
  nextId : t'.nextId = t.nextId + 1
  maxRetained : t'.maxRetained = t.maxRetained

theorem Entered.setQueue (h : Entered t t' e) (lock : String) (q : LockQueue) :
    Entered t (t'.setQueue lock q) e :=
  ⟨h.job?, h.ids, h.finished, h.nextId, h.maxRetained⟩

theorem Entered.wants (h : Entered t t' e) (effects : List (JobEffect β)) :
    Entered t (t'.wants effects) e :=
  ⟨h.job?, h.ids, h.finished, h.nextId, h.maxRetained⟩

theorem Entered.sameBut {t'' : JobTable β} (h : Entered t t' e)
    (hsame : SameBut t' t'' t.nextId e') : Entered t t'' e' where
  job? j := by
    rw [hsame.job?, h.job?]
    by_cases hj : j = t.nextId <;> simp [hj]
  ids := hsame.ids.trans h.ids
  finished := hsame.finished.trans h.finished
  nextId := hsame.nextId.trans h.nextId
  maxRetained := hsame.maxRetained.trans h.maxRetained

theorem Orderly.nextId_not_mem (h : t.Orderly) : t.nextId ∉ t.ids := fun hid =>
  Nat.lt_irrefl _ (h.numbered _ hid).2

theorem Orderly.enter (h : t.Orderly) (now : Nat) (job : NewJob β) :
    Entered t (t.enter now job) (fresh now t.nextId job) := by
  obtain ⟨hjob, hids, -, hfinished, hnext, hmax, -⟩ := enter_spec now job h.nextId_not_mem
  exact ⟨hjob, hids, hfinished, hnext, hmax⟩

theorem Entered.has_iff (h : Entered t t' e) (state : JobState) (lock : Option String) (j : Nat) :
    t'.Has state lock j ↔
      if j = t.nextId then e.state = state ∧ e.snapshot.lock = lock else t.Has state lock j := by
  unfold Has
  rw [h.job?]
  by_cases hj : j = t.nextId <;> simp [hj]

theorem Orderly.running_enter_iff (h : t.Orderly) (now : Nat) (job : NewJob β)
    (held : Option String) (j : Nat) :
    (t.enter now job).Has .running held j ↔ t.Has .running held j := by
  rw [(h.enter now job).has_iff]
  split
  next heq =>
    have hnot : ¬ t.Has .running held j := fun hr => h.nextId_not_mem (heq ▸ hr.mem_ids)
    simp [fresh, JobEntry.state, hnot]
  next => rfl

theorem Entered.fits_other {q : Option LockQueue} (h : Entered t t' e) (ho : t.Orderly)
    (hfits : t.Fits lock q) (hne : e.snapshot.lock ≠ some lock) : t'.Fits lock q := by
  have hsame : ∀ state j, t'.Has state (some lock) j ↔ t.Has state (some lock) j := by
    intro state j
    rw [h.has_iff]
    by_cases hj : j = t.nextId
    · subst hj
      have hnot : ¬ t.Has state (some lock) t.nextId := fun hhas => ho.nextId_not_mem hhas.mem_ids
      simp [hne, hnot]
    · rw [if_neg hj]
  exact hfits.congr (hsame _) (hsame _)

theorem Entered.fits_taken (h : Entered t t' e) (hfits : t.Fits lock none)
    (hs : e.state = .running) (hl : e.snapshot.lock = some lock) :
    t'.Fits lock (some ⟨some t.nextId, []⟩) := by
  refine ⟨t.nextId, rfl, by simp, fun j => ?_, fun j => ?_⟩
  · rw [h.has_iff]
    by_cases hj : j = t.nextId
    · simp [hj, hs, hl]
    · simpa [hj] using (hfits j).1
  · rw [h.has_iff]
    by_cases hj : j = t.nextId
    · simp [hj, hs]
    · simpa [hj] using (hfits j).2

theorem Entered.fits_joined {q : LockQueue} (h : Entered t t' e) (ho : t.Orderly)
    (hfits : t.Fits lock (some q)) (hs : e.state = .waiting) (hl : e.snapshot.lock = some lock) :
    t'.Fits lock (some { q with waiting := q.waiting ++ [t.nextId] }) := by
  obtain ⟨holder, hholder, hsort, hr, hw⟩ := hfits
  have hlow : ∀ j ∈ holder :: q.waiting, j < t.nextId := by
    intro j hj
    rcases List.mem_cons.mp hj with hj | hj
    · exact (ho.numbered j ((hr j).mpr hj).mem_ids).2
    · exact (ho.numbered j ((hw j).mpr hj).mem_ids).2
  refine ⟨holder, hholder, ?_, fun j => ?_, fun j => ?_⟩
  · rw [← List.cons_append]
    exact List.pairwise_append.mpr ⟨hsort, by simp, by simpa using hlow⟩
  · rw [h.has_iff]
    by_cases hj : j = t.nextId
    · have hne : t.nextId ≠ holder := Nat.ne_of_gt (hlow holder (by simp))
      simp [hj, hs, hne]
    · simp [hj, hr]
  · rw [h.has_iff]
    by_cases hj : j = t.nextId
    · simp [hj, hs, hl]
    · simp [hj, hw]

theorem Orderly.entered (ho : t.Orderly) (h : Entered t t' e)
    (hnames : (t'.locks.map Prod.fst).Nodup) (hqueues : ∀ lock, t'.Fits lock (t'.queue? lock))
    (hlocked : e.state = .waiting → e.snapshot.lock ≠ none)
    (hbody : e.body.isSome = true ↔ e.state = .waiting) : t'.Orderly where
  sorted := by
    rw [h.ids]
    exact List.pairwise_append.mpr ⟨ho.sorted, by simp, fun j hj k hk => by
      cases List.mem_singleton.mp hk
      exact (ho.numbered j hj).2⟩
  numbered j hj := by
    rw [h.ids] at hj
    rw [h.nextId]
    rcases List.mem_append.mp hj with hj | hj
    · exact ⟨(ho.numbered j hj).1, Nat.lt_succ_of_lt (ho.numbered j hj).2⟩
    · cases List.mem_singleton.mp hj
      exact ⟨ho.positive, Nat.lt_succ_self _⟩
  positive := h.nextId ▸ Nat.succ_pos _
  names := hnames
  queues := hqueues
  locked j hw := by
    rw [h.has_iff] at hw
    split at hw
    next => exact hlocked hw.1 hw.2
    next => exact ho.locked j hw
  bodies j x hx := by
    rw [h.job?] at hx
    split at hx
    next =>
      cases Option.some.inj hx
      exact hbody
    next => exact ho.bodies j x hx

end Switchboard.JobTable
