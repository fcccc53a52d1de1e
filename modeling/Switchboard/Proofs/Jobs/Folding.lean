import Switchboard.Proofs.Jobs.Encounters

namespace Switchboard

namespace JobTable

variable {β : Type} {t t' : JobTable β} {id now size : Nat} {lock : String} {q : LockQueue}
  {job : NewJob β} {e : JobEntry β}

/-- The jobs that wait for a lock, in the order in which they came. -/
def waitersOf (t : JobTable β) (lock : String) : List Nat :=
  (t.jobs.filter fun e => e.state = .waiting ∧ e.snapshot.lock = some lock).map JobEntry.id

theorem mem_waitersOf (h : t.ids.Pairwise (· < ·)) :
    id ∈ t.waitersOf lock ↔ t.Has .waiting (some lock) id := by
  constructor
  · intro hid
    obtain ⟨e, he, hp⟩ := job?_of_mem_filter h hid
    obtain ⟨hwait, hlock⟩ := of_decide_eq_true hp
    exact ⟨e, he, hwait, hlock⟩
  · rintro ⟨e, he, hwait, hlock⟩
    exact (mem_filter_ids_iff h he).mpr (decide_eq_true ⟨hwait, hlock⟩)

theorem sorted_waitersOf (h : t.ids.Pairwise (· < ·)) (lock : String) :
    (t.waitersOf lock).Pairwise (· < ·) := h.sublist (List.filter_sublist.map JobEntry.id)

theorem nodup_waitersOf (h : t.ids.Pairwise (· < ·)) (lock : String) :
    (t.waitersOf lock).Nodup := (sorted_waitersOf h lock).imp Nat.ne_of_lt

theorem Orderly.waitersOf_eq (h : t.Orderly) (hq : t.queue? lock = some q) :
    t.waitersOf lock = q.waiting := by
  obtain ⟨holder, -, hsorted, -, hwaits⟩ := hq ▸ h.queues lock
  have hqueued : q.waiting.Pairwise (· < ·) := (List.pairwise_cons.mp hsorted).2
  have hlisted := sorted_waitersOf h.sorted lock
  have hperm : (t.waitersOf lock).Perm q.waiting := by
    apply (List.perm_ext_iff_of_nodup (hlisted.imp Nat.ne_of_lt) (hqueued.imp Nat.ne_of_lt)).mpr
    intro id
    rw [mem_waitersOf h.sorted, hwaits]
  refine hperm.eq_of_pairwise (fun a b _ _ hab hba => ?_) hlisted hqueued
  omega

theorem Orderly.waitersOf_free (h : t.Orderly) (hq : t.queue? lock = none) :
    t.waitersOf lock = [] := by
  have hfits := hq ▸ h.queues lock
  apply List.eq_nil_iff_forall_not_mem.mpr
  intro id hid
  exact (hfits id).2 ((mem_waitersOf h.sorted).mp hid)

theorem Orderly.queue?_of_holder {holder : Nat} (h : t.Orderly)
    (hrun : t.Has .running (some lock) holder) :
    t.queue? lock = some ⟨some holder, t.waitersOf lock⟩ := by
  obtain ⟨waiting, hq⟩ := h.holder hrun
  rw [h.waitersOf_eq hq, hq]

/-- Whoever asks for a lock finds its queue full. -/
def Full (t : JobTable β) (lock : String) (size : Nat) : Prop :=
  (∃ holder, t.Has .running (some lock) holder) ∧ size ≤ (t.waitersOf lock).length

theorem Orderly.standIn?_full {holder : Nat} (h : t.Orderly) (hl : job.lock = some lock)
    (hs : job.lockQueueSize = some size) (hrun : t.Has .running (some lock) holder)
    (hfull : size ≤ (t.waitersOf lock).length) :
    t.standIn? job = some (lock, (t.waitersOf lock).getLast?.getD holder) := by
  simp only [standIn?, hl, hs, h.queue?_of_holder hrun, hfull, if_true]
  cases (t.waitersOf lock).getLast? <;> rfl

theorem Orderly.standIn?_room (h : t.Orderly) (hl : job.lock = some lock)
    (hs : job.lockQueueSize = some size) (hroom : ¬ t.Full lock size) :
    t.standIn? job = none := by
  simp only [standIn?, hl, hs]
  cases hq : t.queue? lock with
  | none => rfl
  | some q =>
    obtain ⟨holder, -, -, hruns, -⟩ := hq ▸ h.queues lock
    have hrun : t.Has .running (some lock) holder := (hruns holder).mpr rfl
    refine if_neg fun hfull => hroom ⟨⟨holder, hrun⟩, ?_⟩
    rw [h.waitersOf_eq hq]
    exact hfull

/-- The last job that waits for a lock, or the one that has it. -/
def LastFor (t : JobTable β) (lock : String) (id : Nat) : Prop :=
  (t.waitersOf lock).getLast? = some id ∨
    t.waitersOf lock = [] ∧ t.Has .running (some lock) id

theorem LastFor.unfinished (h : t.LastFor lock id) (hsorted : t.ids.Pairwise (· < ·)) :
    ∃ e, t.job? id = some e ∧ e.state.isTerminal = false ∧ e.snapshot.lock = some lock := by
  have hthere : ∃ state, state.isTerminal = false ∧ t.Has state (some lock) id := by
    rcases h with hlast | ⟨-, hrun⟩
    · exact ⟨.waiting, rfl, (mem_waitersOf hsorted).mp (List.mem_of_getLast? hlast)⟩
    · exact ⟨.running, rfl, hrun⟩
  obtain ⟨state, hopen, e, he, rfl, hlock⟩ := hthere
  exact ⟨e, he, hopen, hlock⟩

theorem lastFor_standIn {holder : Nat} (hrun : t.Has .running (some lock) holder) :
    t.LastFor lock ((t.waitersOf lock).getLast?.getD holder) := by
  cases hlast : (t.waitersOf lock).getLast? with
  | none => exact .inr ⟨List.getLast?_eq_none_iff.mp hlast, hrun⟩
  | some last => exact .inl hlast

end JobTable

namespace Workshop

open JobTable

variable {β : Type} {w w' : Workshop β} {maxRetained id now size : Nat} {lock : String}
  {job : NewJob β} {a : Act β} {going : Bool} {acts : List (Act β)} {effects : List (JobEffect β)}

theorem Meets.still_waiting {held : Option String} {e e' : JobEntry β} {shown : List JobSnapshot}
    (h : Meets a held e shown e') (hwait : e'.state = .waiting) : e' = e := by
  cases h with
  | spared => rfl
  | begins => cases hwait
  | reports percent description hrun =>
    have hstill : (e.reported percent description).state = .running := hrun
    rw [hstill] at hwait
    cases hwait
  | asked hrun =>
    have hstill : e.asked.state = .running := hrun
    rw [hstill] at hwait
    cases hwait
  | settled now outcome =>
    have hend := isTerminal_of_settled now outcome e
    rw [hwait] at hend
    cases hend
  | dismissed now state error _ hends =>
    have hend := hends.terminal
    rw [hwait] at hend
    cases hend

/-- Nobody comes to wait but by being taken in. -/
theorem Sound.waiter_was {held : Option String} (h : w.Sound) (hcan : w.Can a)
    (hwait : (w.does a).table.Has .waiting held id) : w.table.Has .waiting held id ∨
      id = w.table.nextId ∧ ∃ now job, a = .submit now job ∧ w.table.standIn? job = none := by
  obtain ⟨x, hx, hstate, hlock⟩ := hwait
  rw [does_table a h.settled] at hx
  cases he : w.table.job? id with
  | none =>
    rcases h.absent hcan he with ⟨hgone, -⟩ | hnew
    · cases hgone.symm.trans hx
    · exact .inr hnew
  | some e =>
    obtain ⟨shown, e', hmeets, hleft⟩ := h.encounters hcan he
    rcases hleft.job? with hkept | ⟨-, hgone⟩
    · cases hkept.symm.trans hx
      obtain rfl := hmeets.still_waiting hstate
      exact .inl ⟨_, he, hstate, hlock⟩
    · cases hgone.symm.trans hx

/-- Whatever is done but a submission, nobody joins those who wait for a lock. -/
theorem Sound.waiters_shrink (h : w.Sound) (hcan : w.Can a)
    (hsorted : (w.does a).table.ids.Pairwise (· < ·))
    (hjoins : ¬ (w.does a).table.Has .waiting (some lock) w.table.nextId) :
    ((w.does a).table.waitersOf lock).length ≤ (w.table.waitersOf lock).length := by
  apply (List.subperm_of_subset (nodup_waitersOf hsorted lock) ?_).length_le
  intro id hid
  have hwait := (mem_waitersOf hsorted).mp hid
  rcases h.waiter_was hcan hwait with hwas | ⟨rfl, -⟩
  · exact (mem_waitersOf h.table.orderly.sorted).mpr hwas
  · exact absurd hwait hjoins

/-- A job whose lock has a full queue is not taken in. Nobody but the log is told of it, and the
answer is the job that waits last for the lock, or has it if none waits. -/
structure Folded (w : Workshop β) (now : Nat) (job : NewJob β) (lock : String) (id : Nat) :
    Prop where
  same : w.submit now job = w
  answer : (w.table.submit now job).2 = id
  told : (w.table.submit now job).1.effects =
    [.log ⟨.debug, s!"Lock {lock} queue is full, {job.method} folded into job {id}"⟩]
  last : w.table.LastFor lock id
  unfinished : ∃ e, w.table.job? id = some e ∧ e.state.isTerminal = false ∧
    e.snapshot.lock = some lock

/-- A job is taken in under the next number. It is started if its lock is free, and otherwise waits
behind those who wait already. -/
structure TakenIn (w : Workshop β) (now : Nat) (job : NewJob β) (lock : String) (size : Nat) :
    Prop where
  answer : (w.table.submit now job).2 = w.table.nextId
  nextId : (w.submit now job).table.nextId = w.table.nextId + 1
  taken : (w.submit now job).taken = w.taken ++ [(w.table.nextId, job)]
  kept : ∃ s, (w.submit now job).table.snapshot? w.table.nextId = some s ∧
    (fresh now w.table.nextId job).snapshot.SameJob s
  starts : (∀ holder, ¬ w.table.Has .running (some lock) holder) →
    (w.submit now job).table.Has .running (some lock) w.table.nextId ∧
      (w.submit now job).table.waitersOf lock = []
  waits : ∀ holder, w.table.Has .running (some lock) holder →
    (w.submit now job).table.waitersOf lock = w.table.waitersOf lock ++ [w.table.nextId]
  few : ((w.submit now job).table.waitersOf lock).length ≤ size

theorem Sound.folded (h : w.Sound) (hl : job.lock = some lock) (hs : job.lockQueueSize = some size)
    (hfull : w.table.Full lock size) (now : Nat) : ∃ id, Folded w now job lock id := by
  obtain ⟨⟨holder, hrun⟩, hsize⟩ := hfull
  have hstand := h.table.orderly.standIn?_full hl hs hrun hsize
  have hlast := lastFor_standIn hrun
  generalize (w.table.waitersOf lock).getLast?.getD holder = id at hstand hlast
  have htable : w.table.submit now job = (w.table.wants
      [.log ⟨.debug, s!"Lock {lock} queue is full, {job.method} folded into job {id}"⟩], id) := by
    simp only [JobTable.submit, hstand, log_eq]
  refine ⟨id, ?_, by rw [htable], ?_, hlast, hlast.unfinished h.table.orderly.sorted⟩
  · simp only [Workshop.submit, hstand, Option.isNone_some, Bool.false_eq_true, if_false,
      List.append_nil, htable]
    exact adopt_wants h.settled rfl
  · rw [htable]
    simp [wants, h.settled]

theorem Sound.waits_after_submit (h : w.Sound) (now : Nat) (hstand : w.table.standIn? job = none)
    (hl : job.lock = some lock) {holder : Nat} (hrun : w.table.Has .running (some lock) holder) :
    (w.submit now job).table.waitersOf lock = w.table.waitersOf lock ++ [w.table.nextId] := by
  have hthen := (h.submit now job).1.table.orderly
  have ho := h.table.orderly
  have hcan : w.Can (.submit now job) := trivial
  have hlow : ∀ id ∈ w.table.waitersOf lock, id < w.table.nextId := by
    intro id hid
    exact (ho.numbered id ((mem_waitersOf ho.sorted).mp hid).mem_ids).2
  have hnew : (w.submit now job).table.Has .waiting (some lock) w.table.nextId := by
    rcases h.table.submit_comesTo now hstand with ⟨_, -, -, hcome⟩ | ⟨hfree, -⟩
    · exact ⟨_, hcome.job?, rfl, hl⟩
    · have hheld := ho.queue?_of_holder hrun
      rw [hfree lock hl] at hheld
      cases hheld
  apply List.Subset.antisymm_of_pairwise (sorted_waitersOf hthen.sorted lock)
  · refine List.pairwise_append.mpr ⟨sorted_waitersOf ho.sorted lock, List.pairwise_singleton _ _,
      fun id hid j hj => ?_⟩
    rw [List.mem_singleton.mp hj]
    exact hlow id hid
  · intro id hid
    have hwait := (mem_waitersOf hthen.sorted).mp hid
    rcases h.waiter_was (a := .submit now job) hcan hwait with hwas | ⟨rfl, -⟩
    · exact List.mem_append_left _ ((mem_waitersOf ho.sorted).mpr hwas)
    · exact List.mem_append_right _ List.mem_cons_self
  · intro id hid
    rcases List.mem_append.mp hid with hid | hid
    · obtain ⟨e, he, hwait, hlock⟩ := (mem_waitersOf ho.sorted).mp hid
      have hkept := (h.table.comesTo_submit now job he).job?
      exact (mem_waitersOf hthen.sorted).mpr ⟨e, hkept, hwait, hlock⟩
    · rw [List.mem_singleton.mp hid]
      exact (mem_waitersOf hthen.sorted).mpr hnew

theorem Sound.starts_after_submit (h : w.Sound) (now : Nat) (hstand : w.table.standIn? job = none)
    (hl : job.lock = some lock) (hfree : w.table.queue? lock = none) :
    (w.submit now job).table.Has .running (some lock) w.table.nextId ∧
      (w.submit now job).table.waitersOf lock = [] := by
  have hthen := (h.submit now job).1.table.orderly
  have hcan : w.Can (.submit now job) := trivial
  have hrun : (w.submit now job).table.Has .running (some lock) w.table.nextId := by
    rcases h.table.submit_comesTo now hstand with ⟨other, hother, hheld, -⟩ | ⟨-, hcome⟩
    · cases hl.symm.trans hother
      rw [hfree] at hheld
      cases hheld
    · exact ⟨_, hcome.job?, rfl, hl⟩
  refine ⟨hrun, List.eq_nil_iff_forall_not_mem.mpr fun id hid => ?_⟩
  have hwait := (mem_waitersOf hthen.sorted).mp hid
  rcases h.waiter_was (a := .submit now job) hcan hwait with hwas | ⟨rfl, -⟩
  · have hnone := h.table.orderly.waitersOf_free hfree
    have hmem := (mem_waitersOf h.table.orderly.sorted).mpr hwas
    rw [hnone] at hmem
    cases hmem
  · cases (hrun.unique hwait).1

theorem Sound.takenIn (h : w.Sound) (hl : job.lock = some lock)
    (hs : job.lockQueueSize = some size) (hroom : ¬ w.table.Full lock size) (now : Nat) :
    TakenIn w now job lock size := by
  have ho := h.table.orderly
  have hstand := ho.standIn?_room hl hs hroom
  have hstarts : (∀ holder, ¬ w.table.Has .running (some lock) holder) →
      (w.submit now job).table.Has .running (some lock) w.table.nextId ∧
        (w.submit now job).table.waitersOf lock = [] := by
    intro hnobody
    apply h.starts_after_submit now hstand hl
    cases hq : w.table.queue? lock with
    | none => rfl
    | some q =>
      obtain ⟨holder, -, -, hruns, -⟩ := hq ▸ ho.queues lock
      exact absurd ((hruns holder).mpr rfl) (hnobody holder)
  refine ⟨?_, ?_, ?_, h.table.numbered.submit_keeps now hstand, hstarts,
    fun holder hrun => h.waits_after_submit now hstand hl hrun, ?_⟩
  · simp only [JobTable.submit, hstand, hl]
  · obtain ⟨-, started, hadv⟩ := h.table.submit now hstand
    exact hadv.nextId.trans (ho.enter now job).nextId
  · simp [Workshop.submit, Workshop.adopt, hstand]
  · by_cases hheld : ∃ holder, w.table.Has .running (some lock) holder
    · obtain ⟨holder, hrun⟩ := hheld
      have hless : (w.table.waitersOf lock).length < size := by
        by_contra hfull
        exact hroom ⟨⟨holder, hrun⟩, by omega⟩
      rw [h.waits_after_submit now hstand hl hrun, List.length_append, List.length_singleton]
      omega
    · rw [(hstarts fun holder hrun => hheld ⟨holder, hrun⟩).2]
      exact Nat.zero_le _

def Act.Allows (lock : String) (size : Nat) : Act β → Prop
  | .submit _ job => job.lock = some lock → job.lockQueueSize = some size
  | _ => True

theorem Sound.few_wait (h : w.Sound) (hcan : w.Can a) (hallows : a.Allows lock size)
    (hsorted : (w.does a).table.ids.Pairwise (· < ·))
    (hfew : (w.table.waitersOf lock).length ≤ size) :
    ((w.does a).table.waitersOf lock).length ≤ size := by
  by_cases hjoins : (w.does a).table.Has .waiting (some lock) w.table.nextId
  · have hnot : ¬ w.table.Has .waiting (some lock) w.table.nextId := by
      intro hwas
      exact h.table.orderly.nextId_not_mem hwas.mem_ids
    obtain ⟨-, now, job, rfl, hstand⟩ := (h.waiter_was hcan hjoins).resolve_left hnot
    have hl : job.lock = some lock := by
      obtain ⟨x, hx, -, hlock⟩ := hjoins
      obtain ⟨s, hs, hsame⟩ := h.table.numbered.submit_keeps now hstand
      have hthis : (w.table.submit now job).1.snapshot? w.table.nextId = some x.snapshot :=
        snapshot?_eq hx
      cases hs.symm.trans hthis
      exact hsame.lock.symm.trans hlock
    by_cases hfull : w.table.Full lock size
    · obtain ⟨id, hfolded⟩ := h.folded hl (hallows hl) hfull now
      change ((w.submit now job).table.waitersOf lock).length ≤ size
      rw [hfolded.same]
      exact hfew
    · exact (h.takenIn hl (hallows hl) hfull now).few
  · exact Nat.le_trans (h.waiters_shrink hcan hsorted hjoins) hfew

theorem Course.few_wait
    (h : Course (fun _ a => a.Allows lock size) (opened maxRetained) going acts effects w) :
    (w.table.waitersOf lock).length ≤ size := by
  have hopened : (opened maxRetained : Workshop β).Sound := sound_opened maxRetained
  induction h with
  | start => exact Nat.zero_le _
  | @next going _ _ w' h a hcan hallows hopen ih =>
    have hsorted : (w'.does a).table.ids.Pairwise (· < ·) :=
      (h.next a hcan hallows hopen).annals.inOrder.sorted
    rcases hopen with hgo | hsent
    · exact ((h.accounted hopened).2 hgo).few_wait hcan hallows hsorted ih
    · rw [table_sent hsent]
      exact ih

/-- A submission that finds the queue of its lock full is folded into the last job there, and any
other is taken in. Every submission is answered with a job that is in the table. If all that come
for a lock allow the same number of jobs to wait, no more than that ever do. -/
theorem full_queues_fold (maxRetained : Nat) :
    (∀ w : Workshop β, Reachable maxRetained w → ∀ now job,
      (∀ lock size, job.lock = some lock → job.lockQueueSize = some size →
        (w.table.Full lock size → ∃ id, Folded w now job lock id) ∧
        (¬ w.table.Full lock size → TakenIn w now job lock size)) ∧
      ∃ e, (w.submit now job).table.job? (w.table.submit now job).2 = some e) ∧
    ∀ lock size going acts effects (w : Workshop β),
      Course (fun _ a => a.Allows lock size) (opened maxRetained) going acts effects w →
      (w.table.waitersOf lock).length ≤ size := by
  refine ⟨fun w h now job => ?_, fun lock size going acts effects w h => h.few_wait⟩
  have hsound := (sound_of_reachable h).1
  refine ⟨fun lock size hl hs => ⟨fun hfull => hsound.folded hl hs hfull now,
    fun hroom => hsound.takenIn hl hs hroom now⟩, ?_⟩
  obtain ⟨s, hs⟩ := hsound.table.submit_answered hsound.table.numbered now job
  obtain ⟨e, he, -⟩ := job?_of_snapshot? hs
  exact ⟨e, he⟩

def narrowJob (body : Nat) : NewJob Nat := { lockedJob "L" body with lockQueueSize := some 1 }

def narrow : Workshop Nat := ((opened 1).submit 0 (narrowJob 10)).submit 1 (narrowJob 20)

theorem full_queues_fold_in_narrow : narrow.submit 2 (narrowJob 30) = narrow ∧
    narrow.table.LastFor "L" (narrow.table.submit 2 (narrowJob 30)).2 ∧
    TakenIn (opened 1) 0 (narrowJob 10) "L" 1 ∧ narrow.table.waitersOf "L" = [2] ∧
    (narrow.table.waitersOf "L").length ≤ 1 := by
  obtain ⟨hsubmitted, hruns⟩ := full_queues_fold (β := Nat) 1
  have hnew : Runs (opened 1) (opened 1 : Workshop Nat) := .refl
  have hreached : Reachable 1 narrow := (hnew.tail (Step.submit _ 0 (narrowJob 10))).tail
    (Step.submit _ 1 (narrowJob 20))
  have hfull : narrow.table.Full "L" 1 := ⟨⟨1, _, rfl, rfl, rfl⟩, by decide⟩
  obtain ⟨hfolds, -⟩ := (hsubmitted narrow hreached 2 (narrowJob 30)).1 "L" 1 rfl rfl
  obtain ⟨id, hfolded⟩ := hfolds hfull
  obtain ⟨-, htakes⟩ := (hsubmitted (opened 1) hnew 0 (narrowJob 10)).1 "L" 1 rfl rfl
  have hroom : ¬ (opened 1 : Workshop Nat).table.Full "L" 1 := by
    rintro ⟨⟨holder, e, he, -⟩, -⟩
    cases he
  have hopened : Course (fun _ a => a.Allows "L" 1) (opened 1 : Workshop Nat) true [] []
    (opened 1) := .start
  have hcourse := (hopened.next (.submit 0 (narrowJob 10)) trivial (fun _ => rfl) (.inl rfl)).next
    (.submit 1 (narrowJob 20)) trivial (fun _ => rfl) (.inl rfl)
  exact ⟨hfolded.same, hfolded.answer.symm ▸ hfolded.last, htakes hroom, by decide,
    hruns "L" 1 _ _ _ narrow hcourse⟩

end Workshop

end Switchboard
