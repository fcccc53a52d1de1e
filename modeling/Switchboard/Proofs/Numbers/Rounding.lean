import Mathlib.Data.Nat.Log
import Mathlib.Algebra.Order.Group.Abs
import Mathlib.Algebra.Order.Ring.Int
import Mathlib.Tactic.Ring
import Switchboard.Double

namespace Switchboard

variable {num den : Nat}

theorem roundHalfEven_mono (den : Nat) {a b : Nat} (h : a ≤ b) :
    roundHalfEven a den ≤ roundHalfEven b den := by
  have hq : a / den ≤ b / den := Nat.div_le_div_right h
  have ha := Nat.div_add_mod a den
  have hb := Nat.div_add_mod b den
  unfold roundHalfEven
  dsimp only
  rcases hq.lt_or_eq with hlt | heq
  · split <;> split <;> omega
  · have hr : a % den ≤ b % den := by
      rw [heq] at ha
      omega
    rw [heq]
    split <;> split <;> omega

theorem roundHalfEven_mul (q : Nat) (hden : 0 < den) : roundHalfEven (q * den) den = q := by
  unfold roundHalfEven
  rw [Nat.mul_mod_left, Nat.mul_div_cancel _ hden]
  exact if_neg (by omega)

/-- No rounding goes further than half a step. -/
theorem roundHalfEven_near (num : Nat) (hden : 0 < den) :
    2 * num ≤ 2 * (roundHalfEven num den * den) + den ∧
      2 * (roundHalfEven num den * den) ≤ 2 * num + den := by
  have hsum := Nat.div_add_mod num den
  have hlt := Nat.mod_lt num hden
  rw [Nat.mul_comm] at hsum
  unfold roundHalfEven
  dsimp only
  split
  · rw [Nat.add_mul, Nat.one_mul]
    omega
  · omega

/-- What is divided by 2 to this power on the way to the 53 bits of a double. -/
def roundingShift (num den : Nat) : Nat := (num / den).log2 - 52

theorem rankOfUnits_eq (num den : Nat) : rankOfUnits num den =
    roundingShift num den * 2 ^ 52 +
      roundHalfEven num (den * 2 ^ roundingShift num den) := rfl

theorem lt_roundingShift (num : Nat) (hden : 0 < den) :
    num < 2 ^ 53 * (den * 2 ^ roundingShift num den) := by
  have hpow : 2 ^ ((num / den).log2 + 1) ≤ 2 ^ (53 + roundingShift num den) :=
    Nat.pow_le_pow_right (by decide) (by unfold roundingShift; omega)
  have hlt := (Nat.div_lt_iff_lt_mul hden).mp (Nat.lt_log2_self.trans_le hpow)
  rwa [Nat.pow_add, Nat.mul_assoc, Nat.mul_comm (2 ^ _) den] at hlt

theorem le_roundingShift (hden : 0 < den) (hshift : 0 < roundingShift num den) :
    2 ^ 52 * (den * 2 ^ roundingShift num den) ≤ num := by
  have hlog : (num / den).log2 = 52 + roundingShift num den := by
    unfold roundingShift at hshift ⊢
    omega
  have hpos : num / den ≠ 0 := by
    intro hzero
    rw [hzero, Nat.log2_zero] at hlog
    omega
  have hle := Nat.log2_self_le hpos
  rw [hlog, Nat.le_div_iff_mul_le hden] at hle
  rwa [Nat.pow_add, Nat.mul_assoc, Nat.mul_comm (2 ^ _) den] at hle

theorem roundingShift_mono {a b : Nat} (h : a ≤ b) : roundingShift a den ≤ roundingShift b den := by
  have hdiv : a / den ≤ b / den := Nat.div_le_div_right h
  have hlog : (a / den).log2 ≤ (b / den).log2 := by
    rw [Nat.log2_eq_log_two, Nat.log2_eq_log_two]
    exact Nat.log_mono_right hdiv
  exact Nat.sub_le_sub_right hlog 52

theorem roundHalfEven_le (num : Nat) (hden : 0 < den) :
    roundHalfEven num (den * 2 ^ roundingShift num den) ≤ 2 ^ 53 := by
  have hpos : 0 < den * 2 ^ roundingShift num den := Nat.mul_pos hden (Nat.two_pow_pos _)
  have hle := roundHalfEven_mono (den * 2 ^ roundingShift num den) (lt_roundingShift num hden).le
  rwa [roundHalfEven_mul _ hpos] at hle

theorem le_roundHalfEven (hden : 0 < den) (hshift : 0 < roundingShift num den) :
    2 ^ 52 ≤ roundHalfEven num (den * 2 ^ roundingShift num den) := by
  have hpos : 0 < den * 2 ^ roundingShift num den := Nat.mul_pos hden (Nat.two_pow_pos _)
  have hle := roundHalfEven_mono (den * 2 ^ roundingShift num den)
    (le_roundingShift hden hshift)
  rwa [roundHalfEven_mul _ hpos] at hle

theorem rankOfUnits_mono {a b : Nat} (hden : 0 < den) (h : a ≤ b) :
    rankOfUnits a den ≤ rankOfUnits b den := by
  rw [rankOfUnits_eq, rankOfUnits_eq]
  rcases (roundingShift_mono h).lt_or_eq with hlt | heq
  · have hle := roundHalfEven_le a hden
    have hge := le_roundHalfEven hden (Nat.zero_lt_of_lt hlt)
    omega
  · rw [heq]
    exact Nat.add_le_add_left (roundHalfEven_mono _ h) _

theorem unitsOfRank_add {k q : Nat} (hq : q ≤ 2 ^ 53) (hk : 0 < k → 2 ^ 52 ≤ q) :
    unitsOfRank (k * 2 ^ 52 + q) = q * 2 ^ k := by
  have hhalf : Nat.pow 2 52 = 2 ^ 52 := rfl
  unfold unitsOfRank
  simp only [hhalf]
  rcases Nat.lt_or_ge q (2 ^ 52) with hsmall | hlarge
  · obtain rfl : k = 0 := by omega
    rw [if_pos (by omega)]
    simp
  rw [if_neg (by omega)]
  rcases hq.lt_or_eq with hlt | rfl
  · have hdiv : (k * 2 ^ 52 + q) / 2 ^ 52 = k + 1 := by omega
    have hmod : (k * 2 ^ 52 + q) % 2 ^ 52 = q - 2 ^ 52 := by omega
    rw [hdiv, hmod, Nat.add_sub_cancel, Nat.add_sub_cancel' hlarge]
    rfl
  · have hdiv : (k * 2 ^ 52 + 2 ^ 53) / 2 ^ 52 = k + 2 := by omega
    have hmod : (k * 2 ^ 52 + 2 ^ 53) % 2 ^ 52 = 0 := by omega
    rw [hdiv, hmod]
    show (2 ^ 52 + 0) * 2 ^ (k + 1) = 2 ^ 53 * 2 ^ k
    ring

/-- The double that a quotient is rounded to. -/
theorem unitsOfRank_rankOfUnits (num : Nat) (hden : 0 < den) :
    unitsOfRank (rankOfUnits num den) =
      roundHalfEven num (den * 2 ^ roundingShift num den) * 2 ^ roundingShift num den := by
  rw [rankOfUnits_eq]
  exact unitsOfRank_add (roundHalfEven_le num hden) (le_roundHalfEven hden)

theorem log2_mul_two_pow {q k : Nat} (hle : 2 ^ 52 ≤ q) (hlt : q < 2 ^ 53) :
    (q * 2 ^ k).log2 = 52 + k := by
  have hpos : 0 < q * 2 ^ k := Nat.mul_pos (by omega) (Nat.two_pow_pos k)
  refine (Nat.log2_eq_iff hpos.ne').mpr ⟨?_, ?_⟩
  · rw [Nat.pow_add]
    exact Nat.mul_le_mul_right _ hle
  · rw [show 52 + k + 1 = 53 + k by omega, Nat.pow_add]
    exact Nat.mul_lt_mul_of_pos_right hlt (Nat.two_pow_pos k)

/-- Every double is rounded to itself. -/
theorem rankOfUnits_unitsOfRank (r : Nat) : rankOfUnits (unitsOfRank r) 1 = r := by
  obtain ⟨k, q, rfl, hq, hk⟩ : ∃ k q, r = k * 2 ^ 52 + q ∧ q < 2 ^ 53 ∧ (0 < k → 2 ^ 52 ≤ q) := by
    rcases Nat.lt_or_ge r (2 ^ 52) with hr | hr
    · exact ⟨0, r, by omega, by omega, nofun⟩
    · exact ⟨r / 2 ^ 52 - 1, 2 ^ 52 + r % 2 ^ 52, by omega, by omega, by omega⟩
  rw [unitsOfRank_add hq.le hk]
  have hshift : roundingShift (q * 2 ^ k) 1 = k := by
    unfold roundingShift
    rw [Nat.div_one]
    rcases Nat.eq_zero_or_pos k with rfl | hpos
    · rw [Nat.pow_zero, Nat.mul_one]
      rcases Nat.eq_zero_or_pos q with rfl | hq'
      · rfl
      · have := (Nat.log2_lt hq'.ne').mpr hq
        omega
    · have hlog := log2_mul_two_pow (k := k) (hk hpos) hq
      omega
  rw [rankOfUnits_eq, hshift, Nat.one_mul, roundHalfEven_mul _ (Nat.two_pow_pos k)]

theorem unitsOfRank_strictMono : StrictMono unitsOfRank := by
  intro r s hlt
  by_contra hle
  have hmono := rankOfUnits_mono Nat.one_pos (Nat.le_of_not_lt hle)
  rw [rankOfUnits_unitsOfRank, rankOfUnits_unitsOfRank] at hmono
  omega

/-- A number of at most 53 bits, with zeros behind them, is a double. -/
theorem exists_unitsOfRank {m k : Nat} (hm : m ≤ 2 ^ 53) : ∃ r, unitsOfRank r = m * 2 ^ k := by
  induction k generalizing m with
  | zero => exact ⟨0 * 2 ^ 52 + m, unitsOfRank_add hm nofun⟩
  | succ k ih =>
    rcases Nat.lt_or_ge m (2 ^ 52) with hsmall | hlarge
    · obtain ⟨r, hr⟩ := ih (m := m * 2) (by omega)
      exact ⟨r, by rw [hr, Nat.pow_succ, Nat.mul_assoc, Nat.mul_comm 2]⟩
    · exact ⟨(k + 1) * 2 ^ 52 + m, unitsOfRank_add hm fun _ => hlarge⟩

theorem exists_unitsPerOne : ∃ k, unitsPerOne = 2 ^ k := by
  -- for any exponent, since 2^1074 is not to be evaluated
  have hpow : ∀ k, ∃ j, Nat.pow 2 k = 2 ^ j := fun k => ⟨k, rfl⟩
  unfold unitsPerOne
  exact hpow 1074

theorem unitsPerOne_pos : 0 < unitsPerOne := by
  obtain ⟨k, hk⟩ := exists_unitsPerOne
  rw [hk]
  exact Nat.two_pow_pos k

theorem unitsOfInt_mono {a b : Int} (h : a ≤ b) : unitsOfInt a ≤ unitsOfInt b := by
  have hsize : ∀ {m n : Nat}, m ≤ n → unitsOfRank (rankOfUnits (m * unitsPerOne) 1) ≤
      unitsOfRank (rankOfUnits (n * unitsPerOne) 1) := fun hle =>
    unitsOfRank_strictMono.monotone
      (rankOfUnits_mono Nat.one_pos (Nat.mul_le_mul_right _ hle))
  unfold unitsOfInt
  dsimp only
  split <;> split
  next => exact Int.neg_le_neg (Int.ofNat_le.mpr (hsize (by omega)))
  next => omega
  next => omega
  next => exact Int.ofNat_le.mpr (hsize (by omega))

theorem mul_unitsPerOne (n : Int) : n * unitsPerOne =
    if n < 0 then -((n.natAbs * unitsPerOne : Nat) : Int) else (n.natAbs * unitsPerOne : Nat) := by
  push_cast
  split
  next hneg => rw [abs_of_neg hneg, neg_mul, neg_neg]
  next hpos => rw [abs_of_nonneg (not_lt.mp hpos)]

theorem unitsOfInt_of_rank {n : Int} {r : Nat} (h : unitsOfRank r = n.natAbs * unitsPerOne) :
    unitsOfInt n = n * unitsPerOne := by
  rw [mul_unitsPerOne]
  unfold unitsOfInt
  dsimp only
  rw [← h, rankOfUnits_unitsOfRank]

theorem unitsOfInt_of_small {n : Int} (h : n.natAbs ≤ 2 ^ 53) :
    unitsOfInt n = n * unitsPerOne := by
  obtain ⟨k, hk⟩ := exists_unitsPerOne
  obtain ⟨r, hr⟩ := exists_unitsOfRank (k := k) h
  rw [← hk] at hr
  exact unitsOfInt_of_rank hr

theorem roundingShift_le {m k : Nat} (h : m < 2 ^ (53 + k)) : roundingShift m 1 ≤ k := by
  unfold roundingShift
  rw [Nat.div_one]
  rcases Nat.eq_zero_or_pos m with rfl | hpos
  · rw [Nat.log2_zero]
    omega
  · have hlog := (Nat.log2_lt hpos.ne').mpr h
    omega

/-- A whole number of 64 bits goes no further than 1024 when it is rounded. -/
theorem unitsOfInt_near {n : Int} (h : n.natAbs < 2 ^ 64) :
    |unitsOfInt n - n * unitsPerOne| ≤ 1024 * unitsPerOne := by
  obtain ⟨k, hk⟩ := exists_unitsPerOne
  have hshift : roundingShift (n.natAbs * unitsPerOne) 1 ≤ 11 + k := by
    refine roundingShift_le ?_
    rw [hk, ← Nat.add_assoc, Nat.pow_add]
    exact Nat.mul_lt_mul_of_pos_right h (Nat.two_pow_pos k)
  have hstep : 2 ^ roundingShift (n.natAbs * unitsPerOne) 1 ≤ 2 * (1024 * unitsPerOne) := by
    refine (Nat.pow_le_pow_right (by decide) hshift).trans_eq ?_
    rw [hk, Nat.pow_add]
    omega
  have hnear := roundHalfEven_near (n.natAbs * unitsPerOne)
    (Nat.mul_pos Nat.one_pos (Nat.two_pow_pos (roundingShift (n.natAbs * unitsPerOne) 1)))
  have hunits := unitsOfRank_rankOfUnits (n.natAbs * unitsPerOne) Nat.one_pos
  rw [Nat.one_mul] at hnear hunits
  rw [← hunits] at hnear
  rw [mul_unitsPerOne, abs_le]
  unfold unitsOfInt
  dsimp only
  split <;> omega

namespace Double

variable {d : Double} {n : Int}

theorem units_of_ofInt? (h : ofInt? n = some d) : d.units = unitsOfInt n := by
  unfold ofInt? ofRatio? ofUnits? at h
  dsimp only at h
  split at h
  next => 
    cases h
    by_cases hneg : n < 0
    · simp only [units, magnitude, unitsOfInt, decide_eq_true hneg, if_pos hneg, if_true]
    · simp only [units, magnitude, unitsOfInt, decide_eq_false hneg, if_neg hneg, Bool.false_eq_true,
        if_false]
  next => cases h

theorem units_of_toInt? (h : d.toInt? = some n) : d.units = unitsOfInt n := by
  unfold toInt? at h
  split at h
  next hmod =>
    cases h
    have hunits : d.units = d.units / unitsPerOne * unitsPerOne :=
      (Int.ediv_mul_cancel (Int.dvd_of_emod_eq_zero hmod)).symm
    have hsize : d.units.natAbs = d.magnitude := by
      unfold units
      split
      · rw [Int.natAbs_neg, Int.natAbs_natCast]
      · exact Int.natAbs_natCast _
    have hrank : unitsOfRank d.rank = (d.units / unitsPerOne).natAbs * unitsPerOne := by
      rw [← Int.natAbs_natCast unitsPerOne, ← Int.natAbs_mul, Int.natAbs_natCast, ← hunits, hsize]
      rfl
    rw [unitsOfInt_of_rank hrank, ← hunits]
  next => cases h

end Double

end Switchboard
