import Switchboard.Proofs.Numbers.Rounding

namespace Switchboard

variable {num den n : Nat}

theorem roundHalfEven_mul_mul {c : Nat} (hc : 0 < c) :
    roundHalfEven (num * c) (den * c) = roundHalfEven num den := by
  have hlt : den * c < 2 * (num % den * c) ↔ den < 2 * (num % den) := by
    rw [← Nat.mul_assoc]
    exact Nat.mul_lt_mul_right hc
  have heq : den * c = 2 * (num % den * c) ↔ den = 2 * (num % den) := by
    rw [← Nat.mul_assoc]
    exact Nat.mul_left_inj hc.ne'
  unfold roundHalfEven
  simp only [Nat.mul_div_mul_right _ _ hc, Nat.mul_mod_mul_right, hlt, heq]

/-- What a quotient is rounded to does not depend on how it is written. -/
theorem rankOfUnits_mul_mul {c : Nat} (hc : 0 < c) :
    rankOfUnits (num * c) (den * c) = rankOfUnits num den := by
  have hshift : roundingShift (num * c) (den * c) = roundingShift num den := by
    unfold roundingShift
    rw [Nat.mul_div_mul_right _ _ hc]
  rw [rankOfUnits_eq, rankOfUnits_eq, hshift, Nat.mul_right_comm, roundHalfEven_mul_mul hc]

/-- The size of the double nearest to `num / den` units of 2^-1074, with the exponent unbounded. -/
def nearest (num den : Nat) : Nat := unitsOfRank (rankOfUnits num den)

theorem nearest_mul_mul {c : Nat} (hc : 0 < c) : nearest (num * c) (den * c) = nearest num den :=
  congrArg unitsOfRank (rankOfUnits_mul_mul hc)

/-- Rounding keeps the order of two quotients. -/
theorem rankOfUnits_le {num' den' : Nat} (hden : 0 < den) (hden' : 0 < den')
    (h : num * den' ≤ num' * den) : rankOfUnits num den ≤ rankOfUnits num' den' := by
  have hleft : rankOfUnits (num * den') (den * den') = rankOfUnits num den :=
    rankOfUnits_mul_mul hden'
  have hright : rankOfUnits (num' * den) (den' * den) = rankOfUnits num' den' :=
    rankOfUnits_mul_mul hden
  rw [← hleft, ← hright, Nat.mul_comm den' den]
  exact rankOfUnits_mono (Nat.mul_pos hden hden') h

theorem nearest_le_nearest {num' den' : Nat} (hden : 0 < den) (hden' : 0 < den')
    (h : num * den' ≤ num' * den) : nearest num den ≤ nearest num' den' :=
  unitsOfRank_strictMono.monotone (rankOfUnits_le hden hden' h)

theorem nearest_near (n : Nat) : 2 ^ 53 * nearest n 1 ≤ (2 ^ 53 + 1) * n := by
  have hpos := Nat.two_pow_pos (roundingShift n 1)
  have hunits := unitsOfRank_rankOfUnits n Nat.one_pos
  have hnear := (roundHalfEven_near n (Nat.mul_pos Nat.one_pos hpos)).2
  unfold nearest
  rw [hunits, Nat.one_mul]
  rw [Nat.one_mul] at hnear
  rcases Nat.eq_zero_or_pos (roundingShift n 1) with hzero | hshift
  · have hexact := roundHalfEven_mul n Nat.one_pos
    rw [Nat.mul_one] at hexact
    rw [hzero, Nat.pow_zero, Nat.mul_one, hexact]
    omega
  · have hle := le_roundingShift Nat.one_pos hshift
    rw [Nat.one_mul] at hle
    omega

def IsSize (n : Nat) : Prop := ∃ r, unitsOfRank r = n

theorem isSize_of_bits {m : Nat} (hm : m ≤ 2 ^ 53) (j : Nat) :
    IsSize (m * 2 ^ j * unitsPerOne) := by
  obtain ⟨k, hk⟩ := exists_unitsPerOne
  rw [hk, Nat.mul_assoc, ← Nat.pow_add]
  exact exists_unitsOfRank hm

namespace IsSize

theorem nearest_eq (h : IsSize n) : nearest n 1 = n := by
  obtain ⟨r, rfl⟩ := h
  exact congrArg unitsOfRank (rankOfUnits_unitsOfRank r)

theorem nearest_le (h : IsSize n) (hden : 0 < den) (hle : num ≤ n * den) : nearest num den ≤ n := by
  rw [← h.nearest_eq]
  exact nearest_le_nearest hden Nat.one_pos (by rwa [Nat.mul_one])

theorem le_nearest (h : IsSize n) (hden : 0 < den) (hle : n * den ≤ num) : n ≤ nearest num den := by
  rw [← h.nearest_eq]
  exact nearest_le_nearest Nat.one_pos hden (by rwa [Nat.mul_one])

theorem nearest_one_le {m : Nat} (h : IsSize n) (hle : m ≤ n) : nearest m 1 ≤ n :=
  h.nearest_le Nat.one_pos (by rwa [Nat.mul_one])

end IsSize

theorem isSize_whole (hn : n ≤ 2 ^ 53) : IsSize (n * unitsPerOne) := by
  have h := isSize_of_bits hn 0
  rwa [Nat.pow_zero, Nat.mul_one] at h

/-- A size that all words, hundredfold, stay below; it is far from the largest. -/
def ampleSize : Nat := 2 ^ 72 * unitsPerOne

theorem isSize_ample : IsSize ampleSize := by
  have h := isSize_of_bits (m := 1) (by decide) 72
  rwa [Nat.one_mul] at h

theorem rankOfUnits_lt_of_ample (hden : 0 < den) (h : num ≤ ampleSize * den) :
    rankOfUnits num den < Double.rankLimit := by
  have hample : rankOfUnits ampleSize 1 < Double.rankLimit := by decide +kernel
  exact (rankOfUnits_le hden Nat.one_pos (by rwa [Nat.mul_one])).trans_lt hample

namespace Double

variable {a b d : Double} {m : Nat}

def HasSize (d : Double) (n : Nat) : Prop := d.negative = false ∧ d.magnitude = n

theorem HasSize.units (h : d.HasSize n) : d.units = n := by
  rw [Double.units, h.1, if_neg Bool.false_ne_true, h.2]

theorem ofUnits?_eq (hden : 0 < den) (h : num ≤ ampleSize * den) :
    ∃ d, ofUnits? false num den = some d ∧ d.HasSize (nearest num den) :=
  ⟨_, dif_pos (rankOfUnits_lt_of_ample hden h), rfl, rfl⟩

theorem ofInt?_natCast (h : n ≤ 2 ^ 72) :
    ∃ d, ofInt? n = some d ∧ d.HasSize (nearest (n * unitsPerOne) 1) := by
  have hle : n * unitsPerOne ≤ ampleSize * 1 := by
    rw [Nat.mul_one]
    exact Nat.mul_le_mul_right _ h
  have hpos : decide ((n : Int) < 0) = false := decide_eq_false (by omega)
  unfold ofInt? ofRatio?
  rw [hpos, Int.natAbs_natCast]
  exact ofUnits?_eq Nat.one_pos hle

theorem mul?_eq (ha : a.HasSize m) (hb : b.HasSize n) (h : m * n ≤ ampleSize * unitsPerOne) :
    ∃ d, a.mul? b = some d ∧ d.HasSize (nearest (m * n) unitsPerOne) := by
  unfold mul?
  rw [ha.1, hb.1, ha.2, hb.2]
  exact ofUnits?_eq unitsPerOne_pos h

theorem div?_eq (ha : a.HasSize m) (hb : b.HasSize n) (hn : 0 < n)
    (h : m * unitsPerOne ≤ ampleSize * n) :
    ∃ d, a.div? b = some d ∧ d.HasSize (nearest (m * unitsPerOne) n) := by
  unfold div?
  rw [ha.1, hb.1, ha.2, hb.2, if_neg hn.ne']
  exact ofUnits?_eq hn h

end Double

end Switchboard
