import Switchboard.Proofs.Numbers.Rounding
import Switchboard.Query.Filter
import Switchboard.Schema.Validator

namespace Switchboard

/-- Rounding does not make one number of the two. -/
def ToldApart (a b : Int) : Prop := unitsOfInt a = unitsOfInt b → a = b

variable {a b n : Int}

theorem ToldApart.compare_units (h : ToldApart a b) :
    compare (unitsOfInt a) (unitsOfInt b) = compare a b := by
  rcases Int.lt_trichotomy a b with hlt | rfl | hlt
  · have hle := unitsOfInt_mono hlt.le
    have hne : unitsOfInt a ≠ unitsOfInt b := fun heq => hlt.ne (h heq)
    rw [Int.compare_eq_lt.mpr hlt, Int.compare_eq_lt.mpr (lt_of_le_of_ne hle hne)]
  · rw [Int.compare_eq_eq.mpr rfl, Int.compare_eq_eq.mpr rfl]
  · have hle := unitsOfInt_mono hlt.le
    have hne : unitsOfInt b ≠ unitsOfInt a := fun heq => hlt.ne (h heq.symm).symm
    rw [Int.compare_eq_gt.mpr hlt, Int.compare_eq_gt.mpr (lt_of_le_of_ne hle hne)]

theorem ToldApart.units_le_iff (h : ToldApart a b) : unitsOfInt a ≤ unitsOfInt b ↔ a ≤ b := by
  refine ⟨fun hle => ?_, unitsOfInt_mono⟩
  by_contra hlt
  have heq := le_antisymm hle (unitsOfInt_mono (Int.lt_of_not_ge hlt).le)
  exact hlt (h heq).le

theorem ToldApart.units_eq_iff (h : ToldApart a b) : unitsOfInt a = unitsOfInt b ↔ a = b :=
  ⟨h, congrArg unitsOfInt⟩

theorem ToldApart.symm (h : ToldApart a b) : ToldApart b a := fun heq => (h heq.symm).symm

/-- A whole number of less than 54 bits is rounded to no double but its own, and no other number is
rounded to it. -/
theorem toldApart_of_small (h : a.natAbs < 2 ^ 53) : ToldApart a b := by
  have hU : (0 : Int) < unitsPerOne := Int.natCast_pos.mpr unitsPerOne_pos
  have ha := unitsOfInt_of_small h.le
  intro heq
  rw [ha] at heq
  by_cases hb : b.natAbs ≤ 2 ^ 53
  · rw [unitsOfInt_of_small hb] at heq
    exact Int.eq_of_mul_eq_mul_right hU.ne' heq
  -- the other number is rounded to one no nearer than 2^53
  · rcases Int.le_total 0 b with hpos | hneg
    · have hle := unitsOfInt_mono (show 2 ^ 53 ≤ b by omega)
      rw [unitsOfInt_of_small (n := 2 ^ 53) (by decide), ← heq] at hle
      have := Int.le_of_mul_le_mul_right hle hU
      omega
    · have hle := unitsOfInt_mono (show b ≤ -2 ^ 53 by omega)
      rw [unitsOfInt_of_small (n := -2 ^ 53) (by decide), ← heq] at hle
      have := Int.le_of_mul_le_mul_right hle hU
      omega

/-- Two whole numbers of 64 bits that are rounded to one double are no more than 2048 apart. -/
theorem toldApart_of_far (ha : a.natAbs < 2 ^ 64) (hb : b.natAbs < 2 ^ 64)
    (hfar : 2048 < (a - b).natAbs) : ToldApart a b := by
  have hU : (0 : Int) < unitsPerOne := Int.natCast_pos.mpr unitsPerOne_pos
  have hna := abs_le.mp (unitsOfInt_near ha)
  have hnb := abs_le.mp (unitsOfInt_near hb)
  intro heq
  rw [heq] at hna
  have hle : (a - b) * unitsPerOne ≤ 2048 * unitsPerOne := by
    rw [Int.sub_mul]
    omega
  have hge : (-2048) * unitsPerOne ≤ (a - b) * unitsPerOne := by
    rw [Int.sub_mul]
    omega
  have := Int.le_of_mul_le_mul_right hle hU
  have := Int.le_of_mul_le_mul_right hge hU
  omega

/-- The filters that compare with a number and the ascending sort keys agree with the order of two
whole numbers. -/
structure ComparedExactly (a b : Int) : Prop where
  eq : Operator.eq.holds (.int a) (.int b) = decide (a = b)
  ne : Operator.ne.holds (.int a) (.int b) = decide (a ≠ b)
  lt : Operator.lt.holds (.int a) (.int b) = decide (a < b)
  le : Operator.le.holds (.int a) (.int b) = decide (a ≤ b)
  gt : Operator.gt.holds (.int a) (.int b) = decide (a > b)
  ge : Operator.ge.holds (.int a) (.int b) = decide (a ≥ b)
  order : ∀ (key : SortKey) (r s : Json), key.descending = false →
    r.atPath key.path = .int a → s.atPath key.path = .int b → key.compare r s = compare a b

/-- The filters that look for a whole number in a list of these find it where it is. -/
structure FoundExactly (n : Int) (values : List Int) : Prop where
  inList : Operator.inList.holds (.int n) (.arr (values.map .int)) = decide (n ∈ values)
  notInList : Operator.notInList.holds (.int n) (.arr (values.map .int)) = decide (n ∉ values)
  includes : Operator.includes.holds (.arr (values.map .int)) (.int n) = decide (n ∈ values)
  notIncludes : Operator.notIncludes.holds (.arr (values.map .int)) (.int n) = decide (n ∉ values)

theorem holds_eq_int (a b : Int) :
    Operator.eq.holds (.int a) (.int b) = decide (unitsOfInt a = unitsOfInt b) := rfl

theorem compareSame?_int (a b : Int) :
    (Json.int a).compareSame? (.int b) = some (compare (unitsOfInt a) (unitsOfInt b)) := rfl

theorem holds_lt_int (a b : Int) :
    Operator.lt.holds (.int a) (.int b) = decide (unitsOfInt a < unitsOfInt b) := by
  rw [Operator.holds, compareSame?_int, Bool.eq_iff_iff]
  simp [compare_lt_iff_lt]

theorem holds_le_int (a b : Int) :
    Operator.le.holds (.int a) (.int b) = decide (unitsOfInt a ≤ unitsOfInt b) := by
  rw [Operator.holds, compareSame?_int, Bool.eq_iff_iff]
  simp [compare_lt_iff_lt, le_iff_lt_or_eq]

theorem holds_gt_int (a b : Int) :
    Operator.gt.holds (.int a) (.int b) = decide (unitsOfInt a > unitsOfInt b) := by
  rw [Operator.holds, compareSame?_int, Bool.eq_iff_iff]
  simp [compare_gt_iff_gt]

theorem holds_ge_int (a b : Int) :
    Operator.ge.holds (.int a) (.int b) = decide (unitsOfInt a ≥ unitsOfInt b) := by
  rw [Operator.holds, compareSame?_int, Bool.eq_iff_iff]
  simp [compare_gt_iff_gt, le_iff_lt_or_eq, eq_comm (a := unitsOfInt b)]

theorem order_int (h : ToldApart a b) : (Json.int a).order (.int b) = compare a b := by
  rw [Json.order, compareSame?_int, h.compare_units]
  rfl

theorem comparedExactly_iff : ComparedExactly a b ↔ ToldApart a b := by
  constructor
  · intro h heq
    have hequal := h.eq
    rw [holds_eq_int, decide_eq_true heq] at hequal
    exact of_decide_eq_true hequal.symm
  · intro h
    have heq : Operator.eq.holds (.int a) (.int b) = decide (a = b) := by
      rw [holds_eq_int, decide_eq_decide, h.units_eq_iff]
    refine ⟨heq, ?_, ?_, ?_, ?_, ?_, fun key r s hkey hr hs => ?_⟩
    · rw [decide_not]
      exact congrArg not heq
    · rw [holds_lt_int, decide_eq_decide, ← not_le, ← not_le, h.symm.units_le_iff]
    · rw [holds_le_int, decide_eq_decide, h.units_le_iff]
    · rw [holds_gt_int, decide_eq_decide, gt_iff_lt, gt_iff_lt, ← not_le, ← not_le, h.units_le_iff]
    · rw [holds_ge_int, decide_eq_decide, ge_iff_le, ge_iff_le, h.symm.units_le_iff]
    · rw [SortKey.compare, hr, hs, SortKey.compareValues, hkey, order_int h]
      cases key.nulls <;> rfl

theorem includes_int {values : List Int} (h : ∀ m ∈ values, ToldApart n m) :
    (Json.arr (values.map .int)).includes (.int n) = decide (n ∈ values) := by
  rw [Json.includes, List.any_map, Bool.eq_iff_iff, List.any_eq_true, decide_eq_true_iff]
  constructor
  · rintro ⟨m, hm, heq⟩
    have hunits : unitsOfInt m = unitsOfInt n := beq_iff_eq.mp heq
    exact (h m hm).symm hunits ▸ hm
  · intro hm
    exact ⟨n, hm, beq_iff_eq.mpr rfl⟩

theorem foundExactly {values : List Int} (h : ∀ m ∈ values, ToldApart n m) :
    FoundExactly n values := by
  have hfound := includes_int h
  refine ⟨hfound, ?_, hfound, ?_⟩ <;> rw [Operator.holds, hfound, decide_not]

/-- What a range accepts lies between its bounds when it is rounded. -/
theorem accepts_range_iff {low high : Option Double} :
    (Validator.range low high).accepts (.int n) ↔
      (∀ d ∈ low, d.units ≤ unitsOfInt n) ∧ ∀ d ∈ high, unitsOfInt n ≤ d.units := by
  show Validator.rangeViolation? low high (unitsOfInt n) = none ↔ _
  unfold Validator.rangeViolation?
  cases low <;> cases high <;> simp [Option.filter]

def LiesBetween (low high : Option Double) (n : Int) : Prop :=
  (∀ d ∈ low, ∀ m ∈ d.toInt?, m ≤ n) ∧ ∀ d ∈ high, ∀ m ∈ d.toInt?, n ≤ m

theorem accepts_of_liesBetween {low high : Option Double}
    (hwhole : ∀ d, d ∈ low ∨ d ∈ high → ∃ m, d.toInt? = some m) (h : LiesBetween low high n) :
    (Validator.range low high).accepts (.int n) := by
  refine accepts_range_iff.mpr ⟨fun d hd => ?_, fun d hd => ?_⟩
  · obtain ⟨m, hm⟩ := hwhole d (.inl hd)
    rw [Double.units_of_toInt? hm]
    exact unitsOfInt_mono (h.1 d hd m hm)
  · obtain ⟨m, hm⟩ := hwhole d (.inr hd)
    rw [Double.units_of_toInt? hm]
    exact unitsOfInt_mono (h.2 d hd m hm)

theorem accepts_iff_liesBetween {low high : Option Double}
    (hwhole : ∀ d, d ∈ low ∨ d ∈ high → ∃ m, d.toInt? = some m ∧ ToldApart n m) :
    (Validator.range low high).accepts (.int n) ↔ LiesBetween low high n := by
  refine ⟨fun haccepts => ?_, accepts_of_liesBetween fun d hd => ?_⟩
  · obtain ⟨hlow, hhigh⟩ := accepts_range_iff.mp haccepts
    refine ⟨fun d hd m hm => ?_, fun d hd m hm => ?_⟩
    · obtain ⟨m', hm', happart⟩ := hwhole d (.inl hd)
      cases hm.symm.trans hm'
      exact happart.symm.units_le_iff.mp (Double.units_of_toInt? hm ▸ hlow d hd)
    · obtain ⟨m', hm', happart⟩ := hwhole d (.inr hd)
      cases hm.symm.trans hm'
      exact happart.units_le_iff.mp (Double.units_of_toInt? hm ▸ hhigh d hd)
  · obtain ⟨m, hm, -⟩ := hwhole d hd
    exact ⟨m, hm⟩

/-- Filters, sort keys and ranges compare whole numbers as they are where rounding tells them apart,
and only there: always if one of them has less than 54 bits, and among numbers of 64 bits if they
are more than 2048 apart. Where it does not they are equal, so the order is never turned round. -/
theorem whole_numbers_compared (n : Int) :
    (∀ m, ComparedExactly n m ↔ ToldApart n m) ∧
    (∀ values, (∀ m ∈ values, ToldApart n m) → FoundExactly n values) ∧
    (∀ low high : Option Double,
      (∀ d, d ∈ low ∨ d ∈ high → ∃ m, d.toInt? = some m ∧ ToldApart n m) →
      ((Validator.range low high).accepts (.int n) ↔ LiesBetween low high n)) ∧
    (∀ m : Int, n.natAbs < 2 ^ 53 ∨ m.natAbs < 2 ^ 53 → ToldApart n m) ∧
    (∀ m : Int, n.natAbs < 2 ^ 64 → m.natAbs < 2 ^ 64 → 2048 < (n - m).natAbs → ToldApart n m) ∧
    (∀ m, n ≤ m → Operator.le.holds (.int n) (.int m) = true ∧
      Operator.ge.holds (.int m) (.int n) = true) ∧
    (∀ low high : Option Double, (∀ d, d ∈ low ∨ d ∈ high → ∃ m, d.toInt? = some m) →
      LiesBetween low high n → (Validator.range low high).accepts (.int n)) := by
  refine ⟨fun _ => comparedExactly_iff, fun _ => foundExactly, fun _ _ => accepts_iff_liesBetween,
    fun m hsmall => ?_, fun _ => toldApart_of_far, fun m hle => ?_,
    fun _ _ => accepts_of_liesBetween⟩
  · rcases hsmall with hn | hm
    · exact toldApart_of_small hn
    · exact (toldApart_of_small hm).symm
  · rw [holds_le_int, holds_ge_int]
    exact ⟨decide_eq_true (unitsOfInt_mono hle), decide_eq_true (unitsOfInt_mono hle)⟩

/-- Neighbours of 54 bits are equal for a filter, and a range accepts the neighbour of its bound. -/
theorem neighbours_not_told_apart :
    Operator.eq.holds (.int 9007199254740992) (.int 9007199254740993) = true ∧
      ∃ d, Double.ofInt? 18014398509481984 = some d ∧ d.toInt? = some 18014398509481984 ∧
        (Validator.range (some d) none).accepts (.int 18014398509481983) := by
  refine ⟨by decide +kernel, ⟨false, 4850376798678024192, by decide +kernel⟩, by decide +kernel,
    by decide +kernel, accepts_range_iff.mpr ⟨fun d hd => ?_, nofun⟩⟩
  cases hd
  decide +kernel

end Switchboard
