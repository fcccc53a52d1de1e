import Switchboard.Proofs.Jobs.Workshop

namespace Switchboard.Workshop

open JobTable

variable {β : Type} {w : Workshop β}
variable {t t' : JobTable β} {taken : List (Nat × NewJob β)} {started more : List (Nat × β)}
  {ended owed : List Nat} {lock : String} {id : Nat}

theorem asks_append_iff {next : Nat} {job : NewJob β} (hid : id < next) :
    Asks (taken ++ [(next, job)]) lock id ↔ Asks taken lock id := by
  unfold Asks
  refine exists_congr fun j => and_congr_left fun _ => ?_
  simp only [List.mem_append, List.mem_singleton, Prod.mk.injEq]
  constructor
  · rintro (hj | ⟨rfl, -⟩)
    · exact hj
    · omega
  · exact .inl

namespace Ledger

theorem low (h : Ledger t taken started) {s : Nat × β} (hs : s ∈ started) : s.1 < t.nextId := by
  obtain ⟨job, hjob, -⟩ := h.known s hs
  exact h.numbered _ hjob

theorem has_waiting (h : Ledger t taken started) {held : Option String}
    (hw : t.Has .waiting held id) : ∃ job, (id, job) ∈ taken ∧ job.lock = held := by
  obtain ⟨e, he, hs, rfl⟩ := hw
  obtain ⟨job, hjob, hl, -⟩ := h.waiting id e ⟨he, hs⟩
  exact ⟨job, hjob, hl⟩

theorem job_unique (h : Ledger t taken started) {job job' : NewJob β} (hj : (id, job) ∈ taken)
    (hj' : (id, job') ∈ taken) : job = job' := by
  have hn : (taken.map Prod.fst).Nodup := h.sorted.imp Nat.ne_of_lt
  have heq := List.inj_on_of_nodup_map hn hj hj' rfl
  exact (Prod.mk.inj heq).2

theorem lock_of_waiting (h : Ledger t taken started) {held : Option String}
    (hw : t.Has .waiting held id) (ha : Asks taken lock id) : held = some lock := by
  obtain ⟨job, hjob, hl⟩ := h.has_waiting hw
  obtain ⟨job', hjob', hl'⟩ := ha
  cases h.job_unique hjob hjob'
  rw [← hl, hl']

theorem lock_of_running (h : Ledger t taken started) {held : Option String}
    (hr : t.Has .running held id) (ha : Asks taken lock id) : held = some lock := by
  obtain ⟨job, hjob, hl⟩ := h.running held id hr
  obtain ⟨job', hjob', hl'⟩ := ha
  cases h.job_unique hjob hjob'
  rw [← hl, hl']

theorem enter (h : Ledger t taken started) (ho : t.Orderly) (now : Nat) (job : NewJob β) :
    Ledger (t.enter now job) (taken ++ [(t.nextId, job)]) started := by
  have hnew := ho.enter now job
  refine ⟨?_, fun j hj => ?_, fun held id hr => ?_, fun id e he => ?_, fun s hs => ?_,
    fun held id hr => ?_, h.once, fun s hs held hw => ?_, ?_, fun s hs lock id ha hw => ?_⟩
  · rw [List.map_append]
    refine List.pairwise_append.mpr ⟨h.sorted, by simp, fun a ha b hb => ?_⟩
    obtain ⟨j, hj, rfl⟩ := List.mem_map.mp ha
    cases List.mem_singleton.mp hb
    exact h.numbered j hj
  · rw [hnew.nextId]
    rcases List.mem_append.mp hj with hj | hj
    · have hlow := h.numbered j hj
      omega
    · cases List.mem_singleton.mp hj
      exact Nat.lt_succ_self _
  · obtain ⟨job', hjob, hl⟩ := h.running held id ((ho.running_enter_iff now job held id).mp hr)
    exact ⟨job', List.mem_append_left _ hjob, hl⟩
  · rw [hnew.job?] at he
    split at he
    next heq =>
      subst heq
      obtain ⟨he, -⟩ := he
      cases Option.some.inj he
      exact ⟨job, by simp, rfl, rfl⟩
    next =>
      obtain ⟨job', hjob, hrest⟩ := h.waiting id e he
      exact ⟨job', List.mem_append_left _ hjob, hrest⟩
  · obtain ⟨job', hjob, hbody⟩ := h.known s hs
    exact ⟨job', List.mem_append_left _ hjob, hbody⟩
  · exact h.begun held id ((ho.running_enter_iff now job held id).mp hr)
  · rw [hnew.has_iff, if_neg (Nat.ne_of_lt (h.low hs))] at hw
    exact h.gone s hs held hw
  · refine h.inOrder.imp_of_mem fun hs hs' hlt lock ha ha' => ?_
    exact hlt lock ((asks_append_iff (h.low hs)).mp ha) ((asks_append_iff (h.low hs')).mp ha')
  · rw [hnew.has_iff] at hw
    split at hw
    next heq => exact heq ▸ h.low hs
    next => exact h.ahead s hs lock id ((asks_append_iff (h.low hs)).mp ha) hw

theorem takes_lock (h : Ledger t taken started) (hadv : Advances t t' ended more)
    {s : Nat × β} (hs : s ∈ more) (ha : Asks taken lock s.1) :
    t.Has .waiting (some lock) s.1 ∧ t'.Has .running (some lock) s.1 := by
  have hmem : s.1 ∈ more.map Prod.fst := List.mem_map_of_mem hs
  obtain ⟨held, hw⟩ := hadv.started_waits hmem
  cases h.lock_of_waiting hw ha
  exact ⟨hw, (hadv.running _ _).mpr (.inr ⟨hw, hmem⟩)⟩

theorem advance (h : Ledger t taken started) (hadv : Advances t t' ended more)
    (ho : t'.Orderly) : Ledger t' taken (started ++ more) := by
  have hfresh : ∀ s ∈ started, ∀ s' ∈ more, s.1 ≠ s'.1 := by
    intro s hs s' hs' heq
    obtain ⟨held, hw⟩ := hadv.started_waits (List.mem_map_of_mem hs')
    exact h.gone s hs held (heq ▸ hw)
  refine ⟨h.sorted, hadv.nextId ▸ h.numbered, fun held id hr => ?_, fun id e he => ?_,
    fun s hs => ?_, fun held id hr => ?_, ?_, fun s hs held hw => ?_, ?_,
    fun s hs lock id ha hw => ?_⟩
  · rcases (hadv.running held id).mp hr with ⟨hr, -⟩ | ⟨hw, -⟩
    · exact h.running held id hr
    · exact h.has_waiting hw
  · exact h.waiting id e ((hadv.waiting id e).mp he).1
  · rcases List.mem_append.mp hs with hs | hs
    · exact h.known s hs
    · obtain ⟨e, he, hw, hb⟩ := hadv.waited s hs
      obtain ⟨job, hjob, -, hb'⟩ := h.waiting s.1 e ⟨he, hw⟩
      exact ⟨job, hjob, Option.some.inj (hb'.symm.trans hb)⟩
  · rw [List.map_append]
    rcases (hadv.running held id).mp hr with ⟨hr, -⟩ | ⟨-, hs⟩
    · exact List.mem_append_left _ (h.begun held id hr)
    · exact List.mem_append_right _ hs
  · rw [List.map_append]
    refine List.nodup_append.mpr ⟨h.once, hadv.once, fun a ha b hb => ?_⟩
    obtain ⟨s, hs, rfl⟩ := List.mem_map.mp ha
    obtain ⟨s', hs', rfl⟩ := List.mem_map.mp hb
    exact hfresh s hs s' hs'
  · obtain ⟨hw, -, hnot⟩ := (hadv.has_waiting held s.1).mp hw
    rcases List.mem_append.mp hs with hs | hs
    · exact h.gone s hs held hw
    · exact hnot (List.mem_map_of_mem hs)
  · refine List.pairwise_append.mpr ⟨h.inOrder, ?_, fun s hs s' hs' lock ha ha' => ?_⟩
    · -- two jobs that now hold one lock would be one
      refine (List.pairwise_map.mp hadv.once).imp_of_mem fun hs hs' hne lock ha ha' => ?_
      exact absurd (ho.holder_unique (h.takes_lock hadv hs ha).2 (h.takes_lock hadv hs' ha').2) hne
    · exact h.ahead s hs lock s'.1 ha (h.takes_lock hadv hs' ha').1
  · rcases List.mem_append.mp hs with hs | hs
    · exact h.ahead s hs lock id ha ((hadv.has_waiting _ id).mp hw).1
    · obtain ⟨waiting, hq⟩ := ho.holder (h.takes_lock hadv hs ha).2
      obtain ⟨holder, waiting', hq', -, hlt⟩ := ho.waiter hw
      rw [hq] at hq'
      cases hq'
      exact hlt

end Ledger

theorem Owes.advance {owing : List Nat} (h : Owes t owed ended)
    (hadv : Advances t t' ended more) (hperm : owing.Perm (owed ++ more.map Prod.fst)) :
    Owes t' owing [] where
  nodup := by
    rw [hperm.nodup_iff]
    refine List.nodup_append.mpr ⟨h.nodup, hadv.once, ?_⟩
    rintro id hid _ hs rfl
    obtain ⟨⟨held, hr⟩, -⟩ := (h.running id).mp hid
    obtain ⟨held', hw⟩ := hadv.started_waits hs
    cases (hr.unique hw).1
  running id := by
    rw [hperm.mem_iff, List.mem_append, h.running]
    constructor
    · rintro (⟨⟨held, hr⟩, hn⟩ | hs)
      · exact ⟨⟨held, (hadv.running held id).mpr (.inl ⟨hr, hn⟩)⟩, by simp⟩
      · obtain ⟨held, hw⟩ := hadv.started_waits hs
        exact ⟨⟨held, (hadv.running held id).mpr (.inr ⟨hw, hs⟩)⟩, by simp⟩
    · rintro ⟨⟨held, hr⟩, -⟩
      rcases (hadv.running held id).mp hr with ⟨hr, hn⟩ | ⟨-, hs⟩
      · exact .inl ⟨⟨held, hr⟩, hn⟩
      · exact .inr hs

theorem Ledger.withEffects (h : Ledger t taken started) (effects : List (JobEffect β)) :
    Ledger { t with effects } taken started :=
  ⟨h.sorted, h.numbered, h.running, h.waiting, h.known, h.begun, h.once, h.gone, h.inOrder,
    h.ahead⟩

theorem owed_adopt_perm (w : Workshop β) (t : JobTable β) :
    (w.adopt t).owed.Perm (w.owed ++ t.starts.map Prod.fst) := by
  unfold Workshop.owed adopt
  rw [List.append_assoc, List.append_assoc]
  exact List.Perm.append_left _ List.perm_append_comm

theorem Sound.adopt (hsound : t'.Sound) (hadv : Advances t t' ended more) (hnone : t.starts = [])
    (hledger : Ledger t w.taken w.started) (howes : Owes t w.owed ended) :
    (w.adopt t').Sound := by
  have hstarts : t'.starts = more := by rw [hadv.starts, hnone, List.nil_append]
  have hperm := owed_adopt_perm w t'
  rw [hstarts] at hperm
  have howes' := howes.advance hadv hperm
  have hledger' := hledger.advance hadv hsound.orderly
  rw [← hstarts] at hledger'
  exact ⟨hsound.withEffects [], rfl, hledger'.withEffects [], ⟨howes'.nodup, howes'.running⟩⟩

end Switchboard.Workshop
