import Mathlib.Algebra.GroupWithZero.Nat
import Switchboard.Proofs.Calls.Registration
import Switchboard.Proofs.Schema.Stability
import Switchboard.Reporting.Counters

namespace Switchboard

namespace Word

theorem foldlM_add (ns : List Nat) {start : Nat} (h : start < wordLimit) :
    ns.foldlM add start =
      if wordLimit ≤ start + ns.sum then .error .add else .ok (start + ns.sum) := by
  induction ns generalizing start with
  | nil =>
    rw [List.sum_nil, Nat.add_zero, if_neg (Nat.not_le.mpr h)]
    rfl
  | cons n rest ih =>
    rw [List.foldlM_cons, List.sum_cons, ← Nat.add_assoc]
    by_cases hn : wordLimit ≤ start + n
    · rw [add, if_pos hn, if_pos (hn.trans (Nat.le_add_right _ _))]
      rfl
    · rw [add, if_neg hn]
      exact ih (Nat.lt_of_not_le hn)

/-- Adding up overflows on the way just when the sum does not fit in the end. -/
theorem sum_eq (ns : List Nat) :
    sum ns = if wordLimit ≤ ns.sum then .error .add else .ok ns.sum := by
  have h := foldlM_add ns (show 0 < wordLimit by decide)
  rwa [Nat.zero_add] at h

end Word

namespace Reporting

def idleOf (numbers : List Nat) : Nat := numbers.getD 3 0 + numbers.getD 4 0

theorem idleOf_le_sum (numbers : List Nat) : idleOf numbers ≤ numbers.sum := by
  rcases numbers with _ | ⟨a, _ | ⟨b, _ | ⟨c, _ | ⟨d, _ | ⟨e, rest⟩⟩⟩⟩⟩ <;>
    simp [idleOf] <;> omega

theorem add_idle {numbers : List Nat} (h : numbers.sum < wordLimit) :
    Word.add (numbers.getD 3 0) (numbers.getD 4 0) = .ok (idleOf numbers) :=
  if_neg (Nat.not_le.mpr ((idleOf_le_sum numbers).trans_lt h))

theorem sub_idle (numbers : List Nat) :
    Word.sub numbers.sum (idleOf numbers) = .ok (numbers.sum - idleOf numbers) :=
  if_neg (Nat.not_lt.mpr (idleOf_le_sum numbers))

/-- Nothing overflows but the sum, of which the idle times are a part. -/
theorem timesOf_eq (numbers : List Nat) :
    timesOf numbers = if wordLimit ≤ numbers.sum then .error .add
      else .ok ⟨numbers.sum - idleOf numbers, numbers.sum⟩ := by
  unfold timesOf
  rw [Word.sum_eq]
  split
  next => rfl
  next hfits =>
    simp only [add_idle (Nat.lt_of_not_le hfits), sub_idle, bind, Except.bind, pure, Except.pure]

namespace CpuTimes

def idle (t : CpuTimes) : Nat := t.total - t.busy

def Counted (t : CpuTimes) : Prop := t.busy ≤ t.total ∧ t.total < wordLimit

theorem counted_of_timesOf {numbers : List Nat} {t : CpuTimes} (h : timesOf numbers = .ok t) :
    t.Counted := by
  rw [timesOf_eq] at h
  split at h
  next => cases h
  next hfits =>
    cases h
    exact ⟨Nat.sub_le _ _, Nat.lt_of_not_le hfits⟩

end CpuTimes

def HasLine (text name : String) : Prop :=
  ∃ line ∈ linesOf text.toList, ∃ numbers, cpuLine? line = some (name, numbers)

namespace CpuTable

/-- The table as it is made from the lines one by one. -/
inductive Scans : CpuTable → List (List Char) → CpuTable → Prop where
  | done {table : CpuTable} : Scans table [] table
  | skip {table found : CpuTable} {line : List Char} {lines : List (List Char)}
      (hline : cpuLine? line = none) (h : Scans table lines found) :
      Scans table (line :: lines) found
  | entry {table found : CpuTable} {line : List Char} {lines : List (List Char)} {name : String}
      {numbers : List Nat} {t : CpuTimes} (hline : cpuLine? line = some (name, numbers))
      (ht : timesOf numbers = .ok t) (h : Scans (insert name t table) lines found) :
      Scans table (line :: lines) found

variable {table found : CpuTable} {lines : List (List Char)} {name : String} {t : CpuTimes}

theorem insert_eq (name : String) (t : CpuTimes) (table : CpuTable) :
    insert name t table = Directory.insert name t table := by
  induction table with
  | nil => rfl
  | cons e rest ih => rw [insert, Directory.insert, ih]

theorem lookup_insert (name : String) (t : CpuTimes) (table : CpuTable) (other : String) :
    (insert name t table).lookup other = if other = name then some t else table.lookup other := by
  rw [insert_eq]
  exact Directory.get?_insert name t table other

theorem mem_insert {e : String × CpuTimes} (h : e ∈ insert name t table) :
    e = (name, t) ∨ e ∈ table := by
  induction table with
  | nil => exact .inl (List.mem_singleton.mp h)
  | cons f rest ih =>
    rw [insert] at h
    split at h
    next => exact List.mem_cons.mp h
    next =>
      split at h
      next => exact (List.mem_cons.mp h).imp_right (List.mem_cons_of_mem _)
      next =>
        rcases List.mem_cons.mp h with rfl | h
        · exact .inr List.mem_cons_self
        · exact (ih h).imp_right (List.mem_cons_of_mem _)

def names (table : CpuTable) : Fields := table.map fun e => (e.1, .null)

theorem names_insert (name : String) (t : CpuTimes) (table : CpuTable) :
    names (insert name t table) = Fields.insert name .null (names table) := by
  induction table with
  | nil => rfl
  | cons e rest ih =>
    have ih' : List.map (fun e => (e.1, Json.null)) (insert name t rest) =
        Fields.insert name .null (List.map (fun e => (e.1, Json.null)) rest) := ih
    simp only [names, insert, List.map_cons, Fields.insert]
    split
    · rfl
    · split
      · rfl
      · rw [List.map_cons, ih']

theorem scans_of_cpuTable {text : String} (h : cpuTable text = .ok found) :
    Scans [] (linesOf text.toList) found := by
  unfold cpuTable at h
  generalize linesOf text.toList = lines at h
  generalize ([] : CpuTable) = table at h ⊢
  induction lines generalizing table with
  | nil =>
    cases h
    exact .done
  | cons line rest ih =>
    rw [List.foldlM_cons] at h
    cases hline : cpuLine? line with
    | none =>
      rw [hline] at h
      exact .skip hline (ih table h)
    | some entry =>
      obtain ⟨name, numbers⟩ := entry
      rw [hline] at h
      cases ht : timesOf numbers with
      | error o =>
        simp only [ht] at h
        cases h
      | ok t =>
        simp only [ht] at h
        exact .entry hline ht (ih _ h)

namespace Scans

theorem ordered (h : Scans table lines found) (htable : (names table).Ordered) :
    (names found).Ordered := by
  induction h with
  | done => exact htable
  | skip _ _ ih => exact ih htable
  | entry _ _ _ ih => exact ih (names_insert _ _ _ ▸ htable.insert _ _)

theorem origin (h : Scans table lines found) {e : String × CpuTimes} (he : e ∈ found) :
    e ∈ table ∨ ∃ line ∈ lines, ∃ numbers,
      cpuLine? line = some (e.1, numbers) ∧ timesOf numbers = .ok e.2 := by
  induction h with
  | done => exact .inl he
  | skip _ _ ih =>
    refine (ih he).imp_right fun ⟨line, hline, hnumbers⟩ => ?_
    exact ⟨line, List.mem_cons_of_mem _ hline, hnumbers⟩
  | entry hline ht _ ih =>
    rcases ih he with he | ⟨line, hmem, hnumbers⟩
    · rcases mem_insert he with rfl | he
      · exact .inr ⟨_, List.mem_cons_self, _, hline, ht⟩
      · exact .inl he
    · exact .inr ⟨line, List.mem_cons_of_mem _ hmem, hnumbers⟩

theorem counted (h : Scans table lines found) (htable : ∀ e ∈ table, e.2.Counted) :
    ∀ e ∈ found, e.2.Counted := by
  intro e he
  rcases h.origin he with he | ⟨line, -, numbers, -, ht⟩
  · exact htable e he
  · exact CpuTimes.counted_of_timesOf ht

theorem isSome_lookup_iff (h : Scans table lines found) (name : String) :
    (found.lookup name).isSome = true ↔ (table.lookup name).isSome = true ∨
      ∃ line ∈ lines, ∃ numbers, cpuLine? line = some (name, numbers) := by
  induction h with
  | done => simp
  | skip hline _ ih => simp [ih, hline]
  | entry hline _ _ ih =>
    rw [ih, lookup_insert]
    split
    next heq => simp [heq, hline]
    next hne => simp [hline, Ne.symm hne]

end Scans

end CpuTable

variable {text : String} {table : CpuTable}

theorem ordered_of_cpuTable (h : cpuTable text = .ok table) : (CpuTable.names table).Ordered :=
  (CpuTable.scans_of_cpuTable h).ordered .nil

theorem counted_of_cpuTable (h : cpuTable text = .ok table) {name : String} {t : CpuTimes}
    (ht : table.lookup name = some t) : t.Counted := by
  obtain ⟨before, after, rfl, -⟩ := List.lookup_eq_some_iff.mp ht
  exact (CpuTable.scans_of_cpuTable h).counted (fun _ he => absurd he List.not_mem_nil) (name, t)
    (List.mem_append_right _ List.mem_cons_self)

theorem isSome_lookup_cpuTable_iff (h : cpuTable text = .ok table) (name : String) :
    (table.lookup name).isSome = true ↔ HasLine text name :=
  ((CpuTable.scans_of_cpuTable h).isSome_lookup_iff name).trans (or_iff_right (by simp))

end Reporting

end Switchboard
