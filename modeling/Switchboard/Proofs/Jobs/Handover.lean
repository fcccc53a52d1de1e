import Mathlib.Data.List.Sort
import Switchboard.Proofs.Jobs.Runs

namespace Switchboard.Workshop

open JobTable

variable {β : Type} {w w' : Workshop β} {maxRetained id now : Nat} {lock : String}

/-- The jobs that asked for a lock, with their bodies, in the order in which they came. -/
def askers (w : Workshop β) (lock : String) : List (Nat × β) :=
  (w.taken.filter fun j => j.2.lock = some lock).map fun j => (j.1, j.2.body)

def askerIds (w : Workshop β) (lock : String) : List Nat := (w.askers lock).map Prod.fst

def startedFor (w : Workshop β) (lock : String) : List (Nat × β) :=
  w.started.filter fun s => s.1 ∈ w.askerIds lock

theorem mem_askerIds : id ∈ w.askerIds lock ↔ Asks w.taken lock id := by
  simp [askerIds, askers, Asks]

/-- Of two lists in the order of their numbers, the smaller one can be read off the larger one. -/
theorem sublist_of_increasing {α : Type} {l l' : List (Nat × α)}
    (hl : l.Pairwise fun a b => a.1 < b.1) (hl' : l'.Pairwise fun a b => a.1 < b.1)
    (h : l ⊆ l') : l.Sublist l' := by
  have hanti : Std.Antisymm fun a b : Nat × α => a.1 < b.1 :=
    ⟨fun a b hab hba => absurd hab (Nat.lt_asymm hba)⟩
  have hnodup : l.Nodup := by
    apply hl.imp
    rintro a _ hlt rfl
    exact Nat.lt_irrefl a.1 hlt
  exact List.sublist_of_subperm_of_pairwise (List.subperm_of_subset hnodup h) hl hl'

theorem Sound.startedFor_sublist (h : w.Sound) (lock : String) :
    (w.startedFor lock).Sublist (w.askers lock) := by
  refine sublist_of_increasing ?_ ?_ fun s hs => ?_
  · refine (h.ledger.inOrder.sublist List.filter_sublist).imp_of_mem fun hs hs' hlt => ?_
    have ha := of_decide_eq_true (List.mem_filter.mp hs).2
    have ha' := of_decide_eq_true (List.mem_filter.mp hs').2
    exact hlt lock (mem_askerIds.mp ha) (mem_askerIds.mp ha')
  · refine List.pairwise_map.mpr ?_
    exact (List.pairwise_map.mp h.ledger.sorted).sublist List.filter_sublist
  · obtain ⟨hs, ha⟩ := List.mem_filter.mp hs
    obtain ⟨job, hjob, hl⟩ := mem_askerIds.mp (of_decide_eq_true ha)
    obtain ⟨job', hjob', hbody⟩ := h.ledger.known s hs
    cases h.ledger.job_unique hjob hjob'
    exact List.mem_map.mpr ⟨(s.1, job), List.mem_filter.mpr ⟨hjob, by simpa using hl⟩,
      Prod.ext rfl hbody⟩

theorem Sound.running_of_atWork (h : w.Sound) (hid : id ∈ w.atWork) :
    ∃ held, w.table.Has .running held id :=
  ((h.owes.running id).mp (List.mem_append_left _ hid)).1

theorem Sound.nodup_atWork (h : w.Sound) : w.atWork.Nodup := (List.nodup_append.mp h.owes.nodup).1

theorem Sound.atWork_alone (h : w.Sound) (lock : String) :
    (w.atWork.filter fun id => id ∈ w.askerIds lock).length ≤ 1 := by
  have hholds : ∀ id ∈ w.atWork.filter fun id => id ∈ w.askerIds lock,
      w.table.Has .running (some lock) id := by
    intro id hid
    obtain ⟨hwork, ha⟩ := List.mem_filter.mp hid
    obtain ⟨held, hr⟩ := h.running_of_atWork hwork
    cases h.ledger.lock_of_running hr (mem_askerIds.mp (of_decide_eq_true ha))
    exact hr
  have hnodup := h.nodup_atWork.filter fun id => id ∈ w.askerIds lock
  generalize w.atWork.filter (fun id => id ∈ w.askerIds lock) = holders at hholds hnodup
  match holders with
  | [] => simp
  | [_] => simp
  | a :: b :: rest =>
    have heq := h.table.orderly.holder_unique (hholds a (by simp)) (hholds b (by simp))
    simp [heq] at hnodup

/-- A job that no longer waits, and has not started, never starts. -/
theorem Sound.never_started (h : w.Sound) (hruns : Runs w w') (hlow : id < w.table.nextId)
    (hwait : ∀ held, ¬ w.table.Has .waiting held id) (hnot : id ∉ w.started.map Prod.fst) :
    id ∉ w'.started.map Prod.fst := by
  intro hmem
  obtain ⟨s, hs, rfl⟩ := List.mem_map.mp hmem
  rcases (h.runs hruns).2.started s hs with hs | ⟨held, hw⟩ | hle
  · exact hnot (List.mem_map_of_mem hs)
  · exact hwait held hw
  · omega

theorem Sound.never_started_of_ended {t' : JobTable β} {v : Workshop β} {held : Option String}
    (h : w.Sound) (hadv : Advances w.table t' [id] []) (hw : w.table.Has .waiting held id)
    (hstarted : v.started = w.started) (hv : (v.adopt t').Sound) (hruns : Runs (v.adopt t') w') :
    id ∉ w'.started.map Prod.fst := by
  have hstarts : t'.starts = [] := by rw [hadv.starts, h.starts, List.append_nil]
  have hlow : id < t'.nextId := by
    rw [hadv.nextId]
    exact (h.table.orderly.numbered id hw.mem_ids).2
  refine hv.never_started hruns hlow (fun held' hw' => ?_) ?_
  · have hstill := (hadv.has_waiting held' id).mp hw'
    simp at hstill
  · have hsame : (v.adopt t').started = w.started := by
      rw [Workshop.adopt, hstarts, hstarted, List.append_nil]
    rw [hsame]
    intro hmem
    obtain ⟨s, hs, rfl⟩ := List.mem_map.mp hmem
    exact h.ledger.gone s hs held hw

/-- In every run the bodies of a lock take turns in the order in which their jobs came, no body is
started twice, and none whose job ended while it waited. -/
theorem bodies_take_turns (h : Reachable maxRetained w) :
    (∀ lock, (w.atWork.filter fun id => id ∈ w.askerIds lock).length ≤ 1) ∧
      (∀ lock, (w.startedFor lock).Sublist (w.askers lock)) ∧
      (w.started.map Prod.fst).Nodup ∧ w.atWork.Nodup ∧ w.atWork ⊆ w.started.map Prod.fst ∧
      (∀ s ∈ w.started, ∃ job, (s.1, job) ∈ w.taken ∧ job.body = s.2) ∧
      ∀ held id now w', w.table.Has .waiting held id →
        (Runs (w.abort now id) w' ∨ ∃ before after, w.mail = before ++ .lockTimedOut id :: after ∧
          Runs (w.handle now (.lockTimedOut id) (before ++ after)) w') →
        id ∉ w'.started.map Prod.fst ∧ id ∉ w'.atWork := by
  have hsound := (sound_of_reachable h).1
  have hbegun : ∀ {v : Workshop β}, v.Sound → v.atWork ⊆ v.started.map Prod.fst := by
    intro v hv id hid
    obtain ⟨held, hr⟩ := hv.running_of_atWork hid
    exact hv.ledger.begun held id hr
  refine ⟨hsound.atWork_alone, hsound.startedFor_sublist, hsound.ledger.once, hsound.nodup_atWork,
    hbegun hsound, hsound.ledger.known, fun held id now w' hw hend => ?_⟩
  have hnever : id ∉ w'.started.map Prod.fst ∧ w'.Sound := by
    rcases hend with hruns | ⟨before, after, hmail, hruns⟩
    · obtain ⟨e, he, hs, -⟩ := hw
      have hkept := (hsound.abort now id).1
      exact ⟨hsound.never_started_of_ended (hsound.table.abort_waiting he hs now).2
        ⟨e, he, hs, rfl⟩ rfl hkept hruns, (hkept.runs hruns).1⟩
    · obtain ⟨e, he, hs, -⟩ := hw
      have hkept := (hsound.handle hmail now).1
      have hadv := (hsound.table.lockTimedOut he hs now).2
      exact ⟨hsound.never_started_of_ended (v := { w with mail := before ++ after }) hadv
        ⟨e, he, hs, rfl⟩ rfl hkept hruns, (hkept.runs hruns).1⟩
  exact ⟨hnever.1, fun hid => hnever.1 (hbegun hnever.2 hid)⟩

def lockedJob (lock : String) (body : Nat) : NewJob Nat where
  method := "m"
  arguments := []
  lock := some lock
  lockTimeout := some 5
  body

/-- Four jobs come for one lock. The second is aborted and the third times out while they wait, and
its timer goes off once more before the end of the first is handled. -/
def rush : Workshop Nat :=
  let come := ((((opened 1).submit 0 (lockedJob "L" 10)).submit 1 (lockedJob "L" 20)).submit 2
    (lockedJob "L" 30)).submit 3 (lockedJob "L" 40)
  let left := ((come.abort 4 2).send (.lockTimedOut 3)).handle 5 (.lockTimedOut 3) []
  let late := ((left.endBody 1 (.ok .null)).send (.lockTimedOut 3)).handle 6 (.lockTimedOut 3)
    [.finished 1 (.ok .null)]
  late.handle 7 (.finished 1 (.ok .null)) []

theorem rush_reachable : Reachable 1 rush := by
  have hnew : Runs (opened 1) (opened 1 : Workshop Nat) := .refl
  have hcome := (((hnew.tail (Step.submit _ 0 (lockedJob "L" 10))).tail
    (Step.submit _ 1 (lockedJob "L" 20))).tail (Step.submit _ 2 (lockedJob "L" 30))).tail
    (Step.submit _ 3 (lockedJob "L" 40))
  have hleft := ((hcome.tail (Step.abort _ 4 2)).tail (Step.timer _ 3)).tail
    (Step.handle _ 5 [] [] (.lockTimedOut 3) rfl)
  have hend := hleft.tail (Step.endBody _ 1 (.ok .null) (by decide))
  have hlate := (hend.tail (Step.timer _ 3)).tail
    (Step.handle _ 6 [.finished 1 (.ok .null)] [] (.lockTimedOut 3) rfl)
  exact hlate.tail (Step.handle _ 7 [] [] (.finished 1 (.ok .null)) rfl)

theorem bodies_take_turns_in_rush : rush.atWork = [4] ∧
    rush.startedFor "L" = [(1, 10), (4, 40)] ∧ (rush.startedFor "L").Sublist (rush.askers "L") :=
  ⟨by decide, by decide, (bodies_take_turns rush_reachable).2.1 "L"⟩

/-- In every run the queues of the locks, the entries of the jobs and the list of the finished ones
say the same. -/
theorem table_agrees (h : Reachable maxRetained w) :
    (∀ lock, (w.table.queue? lock).isSome ↔ ∃ id e, w.table.job? id = some e ∧
        e.snapshot.lock = some lock ∧ e.state.isTerminal = false) ∧
      (∀ lock q, w.table.queue? lock = some q → ∃ r, q.running = some r ∧
        (∀ id, w.table.Has .running (some lock) id ↔ id = r) ∧
        (∀ id, w.table.Has .waiting (some lock) id ↔ id ∈ q.waiting) ∧
        q.waiting.Nodup ∧ q.waiting.Pairwise (· < ·) ∧ ∀ id ∈ q.waiting, r < id) ∧
      (∀ id e, w.table.job? id = some e →
        (e.state = .waiting → e.snapshot.lock.isSome ∧ e.body.isSome) ∧
        (e.state ≠ .waiting → e.body = none)) ∧
      (∀ id ∈ w.table.ids, 1 ≤ id ∧ id < w.table.nextId) ∧
      w.table.finished.Nodup ∧
      (∀ id, id ∈ w.table.finished ↔
        ∃ e, w.table.job? id = some e ∧ e.state.isTerminal = true) ∧
      (∀ id ∈ w.table.finished, ∀ e, w.table.job? id = some e → e.snapshot.transient = false) ∧
      w.table.finished.length ≤ maxRetained := by
  obtain ⟨hsound, hmax⟩ := sound_of_reachable h
  have ho := hsound.table.orderly
  have hr := hsound.table.remembers
  refine ⟨fun lock => ?_, fun lock q hq => ?_, fun id e he => ⟨fun hw => ?_, fun hw => ?_⟩,
    fun id hid => ho.numbered id hid, ?_, fun id => ?_,
    fun id hid e he => hr.lasting id e hid he, ?_⟩
  · constructor
    · intro hq
      obtain ⟨q, hq⟩ := Option.isSome_iff_exists.mp hq
      obtain ⟨r, -, -, hrun, -⟩ := hq ▸ ho.queues lock
      obtain ⟨e, he, hs, hl⟩ := (hrun r).mpr rfl
      exact ⟨r, e, he, hl, by simp [hs, JobState.isTerminal]⟩
    · rintro ⟨id, e, he, hl, hs⟩
      cases hstate : e.state with
      | running =>
        obtain ⟨waiting, hq⟩ := ho.holder ⟨e, he, hstate, hl⟩
        simp [hq]
      | waiting =>
        obtain ⟨holder, waiting, hq, -⟩ := ho.waiter ⟨e, he, hstate, hl⟩
        simp [hq]
      | success | failed | aborted => simp [hstate, JobState.isTerminal] at hs
  · obtain ⟨r, hholder, hsort, hrun, hwait⟩ := hq ▸ ho.queues lock
    obtain ⟨hlow, hsort⟩ := List.pairwise_cons.mp hsort
    exact ⟨r, hholder, hrun, hwait, hsort.imp Nat.ne_of_lt, hsort, hlow⟩
  · refine ⟨?_, (ho.bodies id e he).mpr hw⟩
    cases hl : e.snapshot.lock with
    | none => exact absurd ⟨e, he, hw, hl⟩ (ho.locked id)
    | some lock => rfl
  · exact ho.body_of_not_waiting he hw
  · simpa using hr.nodup
  · rw [← List.append_nil w.table.finished]
    exact hr.ended id
  · exact hmax ▸ hr.few

theorem table_agrees_in_rush : rush.table.queue? "L" = some ⟨some 4, []⟩ ∧
    rush.table.finished = [1] ∧ ∀ id, id ∈ rush.table.finished ↔
      ∃ e, rush.table.job? id = some e ∧ e.state.isTerminal = true :=
  ⟨by decide, by decide, (table_agrees rush_reachable).2.2.2.2.2.1⟩

def endsInMail (w : Workshop β) (id : Nat) : Nat :=
  (w.mail.filterMap JobReport.finished?).count id

/-- The body of a job is at work, or its end is reported exactly once. -/
def Alive (w : Workshop β) (id : Nat) : Prop :=
  id ∈ w.atWork ∧ w.endsInMail id = 0 ∨ id ∉ w.atWork ∧ w.endsInMail id = 1

theorem Sound.alive {held : Option String} (h : w.Sound) (hr : w.table.Has .running held id) :
    w.Alive id := by
  obtain ⟨-, hmail, hapart⟩ := List.nodup_append.mp h.owes.nodup
  have howed : id ∈ w.owed := (h.owes.running id).mpr ⟨⟨held, hr⟩, by simp⟩
  rcases List.mem_append.mp howed with hwork | hend
  · have hnot : id ∉ w.mail.filterMap JobReport.finished? := fun hend =>
      hapart id hwork id hend rfl
    exact .inl ⟨hwork, List.count_eq_zero.mpr hnot⟩
  · have hnot : id ∉ w.atWork := fun hwork => hapart id hwork id hend rfl
    exact .inr ⟨hnot, List.count_eq_one_of_mem hmail hend⟩

/-- In every run who has a lock is alive. Once no body is at work and no report on its way, every
job has ended and every lock is free. -/
theorem no_lock_is_lost (h : Reachable maxRetained w) :
    (∀ held id, w.table.Has .running held id → w.Alive id) ∧
      (∀ held id, w.table.Has .waiting held id → ∃ lock holder waiting, held = some lock ∧
        w.table.queue? lock = some ⟨some holder, waiting⟩ ∧
        w.table.Has .running (some lock) holder ∧ w.Alive holder) ∧
      (w.atWork = [] → w.mail = [] →
        (∀ id e, w.table.job? id = some e → e.state.isTerminal = true) ∧ w.table.locks = []) := by
  have hsound := (sound_of_reachable h).1
  have ho := hsound.table.orderly
  have hholder : ∀ held id, w.table.Has .waiting held id → ∃ lock holder waiting,
      held = some lock ∧ w.table.queue? lock = some ⟨some holder, waiting⟩ ∧
      w.table.Has .running (some lock) holder := by
    intro held id hw
    cases held with
    | none => exact absurd hw (ho.locked id)
    | some lock =>
      obtain ⟨holder, waiting, hq, -⟩ := ho.waiter hw
      obtain ⟨r, hr, -, hrun, -⟩ := hq ▸ ho.queues lock
      exact ⟨lock, holder, waiting, rfl, hq, (hrun holder).mpr (Option.some.inj hr)⟩
  refine ⟨fun held id hr => hsound.alive hr, fun held id hw => ?_, fun hwork hmail => ?_⟩
  · obtain ⟨lock, holder, waiting, hl, hq, hr⟩ := hholder held id hw
    exact ⟨lock, holder, waiting, hl, hq, hr, hsound.alive hr⟩
  · have hidle : ∀ held id, ¬ w.table.Has .running held id := by
      intro held id hr
      have howed : id ∈ w.owed := (hsound.owes.running id).mpr ⟨⟨held, hr⟩, by simp⟩
      simp [owed, hwork, hmail] at howed
    refine ⟨fun id e he => ?_, eq_nil_of_lookup_none fun lock => ?_⟩
    · cases hs : e.state with
      | running => exact absurd ⟨e, he, hs, rfl⟩ (hidle e.snapshot.lock id)
      | waiting =>
        obtain ⟨lock, holder, -, -, -, hr⟩ := hholder _ id ⟨e, he, hs, rfl⟩
        exact absurd hr (hidle _ holder)
      | success | failed | aborted => rfl
    · have hfits := ho.queues lock
      cases hq : w.table.queue? lock with
      | none => exact hq
      | some q =>
        rw [hq] at hfits
        obtain ⟨r, -, -, hrun, -⟩ := hfits
        exact absurd ((hrun r).mpr rfl) (hidle _ r)

theorem no_lock_is_lost_after_rush :
    ((rush.endBody 4 (.error .aborted)).handle 8 (.finished 4 (.error .aborted)) []).table.locks =
      [] := by
  have hend := rush_reachable.tail (Step.endBody _ 4 (.error .aborted) (by decide))
  have hlast := hend.tail (Step.handle _ 8 [] [] (.finished 4 (.error .aborted)) rfl)
  exact ((no_lock_is_lost hlast).2.2 (by decide) rfl).2

end Switchboard.Workshop
