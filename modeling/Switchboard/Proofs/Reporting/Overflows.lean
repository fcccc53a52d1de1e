import Switchboard.Proofs.Reporting.Processors
import Switchboard.Proofs.Reporting.Samples
import Switchboard.Proofs.Reporting.Texts

namespace Switchboard.Reporting

variable {α β γ δ ε : Type} {text stat meminfo : String} {line : List Char} {o : Overflow}

def IsLine (text : String) (line : List Char) : Prop :=
  ∃ lines, Lines text.toList lines ∧ line ∈ lines

theorem isLine_iff : IsLine text line ↔ line ∈ linesOf text.toList :=
  ⟨fun ⟨_, hlines, hline⟩ => lines_iff.mp hlines ▸ hline, fun h => ⟨_, lines_iff.mpr rfl, h⟩⟩

def memoryKeys : List String :=
  ["MemTotal", "MemFree", "MemAvailable", "Buffers", "Cached", "SwapFree"]

theorem mem_memoryKeys_iff {key : String} :
    key ∈ memoryKeys ↔ ∃ name, (key, name) ∈ memoryNames := by
  have hkeys : memoryKeys = memoryNames.map Prod.fst := rfl
  simp [hkeys]

/-- A line tells a figure of memory that fits a word, but not in bytes. -/
def MemoryExceeds (text : String) : Prop :=
  ∃ line, IsLine text line ∧ ∃ key ∈ memoryKeys, ∃ kib,
    MemoryLine line key kib ∧ 2 ^ 54 ≤ kib ∧ kib < 2 ^ 64

/-- A line tells times of a processor that add up to more than a word. -/
def TimesExceed (text : String) : Prop :=
  ∃ line, IsLine text line ∧ ∃ name numbers, ProcessorLine line name numbers ∧ 2 ^ 64 ≤ numbers.sum

/-- A fold that counts what can be read of each line fails if something that is read cannot be
counted. -/
theorem foldlM_eq_error_iff (count : γ → Except ε δ) (put : β → γ → δ → β) {read : α → Option γ}
    {f : β → α → Except ε β} {fault e : ε} {bad : γ → Prop}
    (hnone : ∀ b a, read a = none → f b a = .ok b)
    (hsome : ∀ b a x, read a = some x → f b a = (count x).map (put b x))
    (hbad : ∀ x, bad x → count x = .error fault) (hgood : ∀ x, ¬bad x → ∃ y, count x = .ok y)
    (as : List α) (b : β) :
    as.foldlM f b = .error e ↔ e = fault ∧ ∃ a ∈ as, ∃ x, read a = some x ∧ bad x := by
  induction as generalizing b with
  | nil =>
    refine ⟨fun h => ?_, fun ⟨_, _, hmem, _⟩ => absurd hmem List.not_mem_nil⟩
    cases h
  | cons a rest ih =>
    rw [List.foldlM_cons, List.exists_mem_cons_iff]
    cases hread : read a with
    | none =>
      rw [hnone b a hread]
      refine (ih b).trans (and_congr_right fun _ => (or_iff_right ?_).symm)
      rintro ⟨x, hx, -⟩
      cases hx
    | some x =>
      rw [hsome b a x hread]
      by_cases hx : bad x
      · rw [hbad x hx]
        constructor
        · intro h
          cases h
          exact ⟨rfl, .inl ⟨x, rfl, hx⟩⟩
        · rintro ⟨rfl, -⟩
          rfl
      · obtain ⟨y, hy⟩ := hgood x hx
        rw [hy]
        refine (ih (put b x y)).trans (and_congr_right fun _ => (or_iff_right ?_).symm)
        rintro ⟨x', hx', hbad'⟩
        cases hx'
        exact hx hbad'

/-- What fails for one reason only succeeds without it. -/
theorem exists_ok_iff {x : Except ε α} {fault : ε} {bad : Prop}
    (h : ∀ e, x = .error e ↔ e = fault ∧ bad) : (∃ a, x = .ok a) ↔ ¬bad := by
  constructor
  · rintro ⟨a, rfl⟩ hbad
    cases (h fault).mpr ⟨rfl, hbad⟩
  · intro hnot
    cases x with
    | error e => exact absurd ((h e).mp rfl).2 hnot
    | ok a => exact ⟨a, rfl⟩

theorem memoryFigures_eq_error_iff :
    memoryFigures meminfo = .error o ↔ o = .mul ∧ MemoryExceeds meminfo := by
  have hfold : memoryFigures meminfo = .error o ↔ o = .mul ∧ ∃ line ∈ linesOf meminfo.toList,
      ∃ x, memoryLine? line = some x ∧ wordLimit ≤ x.2 * 1024 := by
    refine foldlM_eq_error_iff (fun x => Word.mul x.2 1024)
      (fun fields x bytes => Fields.insert x.1 (.nat bytes) fields)
      (fun fields line h => ?_) (fun fields line x h => ?_) (fun x h => ?_)
      (fun x h => ?_) _ _
    · rw [h]
    · rw [h]
    · rw [Word.mul, if_pos h]
    · exact ⟨_, by rw [Word.mul, if_neg h]⟩
  have hword : wordLimit = 2 ^ 64 := rfl
  rw [hfold]
  refine and_congr_right fun _ => ?_
  constructor
  · rintro ⟨line, hline, ⟨name, kib⟩, hread, hlarge⟩
    obtain ⟨key, hkey, hmemory, hlt⟩ := memoryLine?_eq_some_iff.mp hread
    exact ⟨line, isLine_iff.mpr hline, key, mem_memoryKeys_iff.mpr ⟨name, hkey⟩, kib, hmemory,
      by omega, by omega⟩
  · rintro ⟨line, hline, key, hkey, kib, hmemory, hlarge, hlt⟩
    obtain ⟨name, hname⟩ := mem_memoryKeys_iff.mp hkey
    exact ⟨line, isLine_iff.mp hline, (name, kib),
      memoryLine?_eq_some_iff.mpr ⟨key, hname, hmemory, hlt⟩, by omega⟩

example : memoryFigures "Cached: 18014398509481984 kB" = .error .mul := rfl

theorem cpuTable_eq_error_iff : cpuTable stat = .error o ↔ o = .add ∧ TimesExceed stat := by
  have hfold : cpuTable stat = .error o ↔ o = .add ∧ ∃ line ∈ linesOf stat.toList,
      ∃ x, cpuLine? line = some x ∧ wordLimit ≤ x.2.sum := by
    refine foldlM_eq_error_iff (fun x => timesOf x.2) (fun table x t => CpuTable.insert x.1 t table)
      (fun table line h => ?_) (fun table line x h => ?_)
      (fun x h => (timesOf_eq x.2).trans (if_pos h))
      (fun x h => ⟨_, (timesOf_eq x.2).trans (if_neg h)⟩) _ _
    · rw [h]
    · rw [h]
  rw [hfold]
  refine and_congr_right fun _ => ?_
  constructor
  · rintro ⟨line, hline, ⟨label, numbers⟩, hread, hlarge⟩
    obtain ⟨name, hprocessor, -⟩ := cpuLine?_eq_some_iff.mp hread
    exact ⟨line, isLine_iff.mpr hline, name, numbers, hprocessor, hlarge⟩
  · rintro ⟨line, hline, name, numbers, hprocessor, hlarge⟩
    exact ⟨line, isLine_iff.mp hline, _, hprocessor.cpuLine?_eq, hlarge⟩

example : cpuTable "cpu0 18446744073709551615 0 0 0 - 1" =
    .ok [("0", ⟨18446744073709551615, 18446744073709551615⟩)] := rfl

/-- The processors of a text, with the times that its lines tell. -/
structure Tabled (stat : String) (table : CpuTable) : Prop where
  complete : ∀ line name numbers, IsLine stat line → ProcessorLine line name numbers →
    (table.lookup (labelOf name)).isSome = true
  origin : ∀ e ∈ table, ∃ line name numbers, IsLine stat line ∧ ProcessorLine line name numbers ∧
    e.1 = labelOf name ∧ e.2.total = numbers.sum ∧ e.2.busy + idleOf numbers = numbers.sum
  busy_le : ∀ e ∈ table, e.2.busy ≤ e.2.total

theorem tabled_of_cpuTable {table : CpuTable} (h : cpuTable stat = .ok table) :
    Tabled stat table := by
  have horigin : ∀ e ∈ table, ∃ line name numbers, IsLine stat line ∧
      ProcessorLine line name numbers ∧ e.1 = labelOf name ∧ e.2.total = numbers.sum ∧
        e.2.busy + idleOf numbers = numbers.sum := by
    intro e he
    have hscans := CpuTable.scans_of_cpuTable h
    obtain ⟨line, hline, numbers, hread, ht⟩ :=
      (hscans.origin he).resolve_left List.not_mem_nil
    obtain ⟨name, hprocessor, hname⟩ := cpuLine?_eq_some_iff.mp hread
    refine ⟨line, name, numbers, isLine_iff.mpr hline, hprocessor, hname, ?_⟩
    rw [timesOf_eq] at ht
    split at ht
    next => cases ht
    next =>
      have htimes := Except.ok.inj ht
      rw [← htimes]
      exact ⟨rfl, Nat.sub_add_cancel (idleOf_le_sum numbers)⟩
  refine ⟨fun line name numbers hline hprocessor => ?_, horigin, fun e he => ?_⟩
  · exact (isSome_lookup_cpuTable_iff h _).mpr
      ⟨line, isLine_iff.mp hline, numbers, hprocessor.cpuLine?_eq⟩
  · obtain ⟨_, _, numbers, -, -, -, htotal, hbusy⟩ := horigin e he
    omega

theorem overflowed_iff {r : Realtime} :
    (r.sample ⟨.text stat, .text meminfo⟩).1 = .overflowed o ↔
      memoryFigures meminfo = .error o ∨
        cpuTable stat = .error o ∧ ∃ memory, memoryFigures meminfo = .ok memory := by
  cases hmemory : memoryFigures meminfo with
  | error e => simp [Realtime.sample, FileText.read, hmemory]
  | ok memory =>
    cases htable : cpuTable stat with
    | error e => simp [Realtime.sample, FileText.read, hmemory, htable]
    | ok table => simp [Realtime.sample, FileText.read, hmemory, htable]

/-- Two texts make a sample overflow in two ways only, and else it succeeds. -/
structure OverflowsExactly (r : Realtime) (stat meminfo : String) : Prop where
  overflows_iff : (∃ o, (r.sample ⟨.text stat, .text meminfo⟩).1 = .overflowed o) ↔
    MemoryExceeds meminfo ∨ TimesExceed stat
  kind : ∀ o, (r.sample ⟨.text stat, .text meminfo⟩).1 = .overflowed o ↔
    o = .mul ∧ MemoryExceeds meminfo ∨ o = .add ∧ TimesExceed stat ∧ ¬MemoryExceeds meminfo
  succeeds : ¬MemoryExceeds meminfo → ¬TimesExceed stat → ∃ table memory,
    Sample.Holds ⟨.text stat, .text meminfo⟩ table memory ∧ Tabled stat table ∧
      r.sample ⟨.text stat, .text meminfo⟩ =
        (.fields (figures r.previous table memory), { r with previous := some table })
  /-- Once the numbers of a line are added up, the idle ones are there, their sum fits a word, and
  so does what is left of the total without them. -/
  subtracts : ∀ line name numbers total, IsLine stat line → ProcessorLine line name numbers →
    Word.sum numbers = .ok total → 3 < numbers.length ∧ ∃ idle busy,
      Word.add (numbers.getD 3 0) (numbers.getD 4 0) = .ok idle ∧ Word.sub total idle = .ok busy ∧
        timesOf numbers = .ok ⟨busy, total⟩

theorem overflowed_iff_exceeds {r : Realtime} :
    (r.sample ⟨.text stat, .text meminfo⟩).1 = .overflowed o ↔
      o = .mul ∧ MemoryExceeds meminfo ∨ o = .add ∧ TimesExceed stat ∧ ¬MemoryExceeds meminfo := by
  rw [overflowed_iff, memoryFigures_eq_error_iff, cpuTable_eq_error_iff, and_assoc,
    exists_ok_iff fun _ => memoryFigures_eq_error_iff]

/-- Of every source, whatever it remembers. -/
theorem samples_overflow_exactly (r : Realtime) (stat meminfo : String) :
    OverflowsExactly r stat meminfo where
  overflows_iff := by
    constructor
    · rintro ⟨o, ho⟩
      rcases overflowed_iff_exceeds.mp ho with ⟨-, hmemory⟩ | ⟨-, htimes, -⟩
      · exact .inl hmemory
      · exact .inr htimes
    · intro hexceeds
      by_cases hmemory : MemoryExceeds meminfo
      · exact ⟨.mul, overflowed_iff_exceeds.mpr (.inl ⟨rfl, hmemory⟩)⟩
      · have htimes := hexceeds.resolve_left hmemory
        exact ⟨.add, overflowed_iff_exceeds.mpr (.inr ⟨rfl, htimes, hmemory⟩)⟩
  kind _ := overflowed_iff_exceeds
  succeeds hmemory htimes := by
    obtain ⟨memory, hfigures⟩ := (exists_ok_iff fun _ => memoryFigures_eq_error_iff).mpr hmemory
    obtain ⟨table, htable⟩ := (exists_ok_iff fun _ => cpuTable_eq_error_iff).mpr htimes
    have hholds : Sample.Holds ⟨.text stat, .text meminfo⟩ table memory :=
      ⟨⟨stat, rfl, htable⟩, meminfo, rfl, hfigures⟩
    exact ⟨table, memory, hholds, tabled_of_cpuTable htable, r.sample_of_holds hholds⟩
  subtracts line name numbers total _ hprocessor htotal := by
    refine ⟨hprocessor.enough, idleOf numbers, ?_⟩
    rw [Word.sum_eq] at htotal
    split at htotal
    next => cases htotal
    next hfits =>
      cases htotal
      have htimes := (timesOf_eq numbers).trans (if_neg hfits)
      exact ⟨_, add_idle (Nat.lt_of_not_le hfits), sub_idle numbers, htimes⟩

end Switchboard.Reporting
