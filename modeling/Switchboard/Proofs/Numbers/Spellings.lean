import Mathlib.Algebra.Order.Ring.Int
import Mathlib.Data.List.TakeWhile
import Switchboard.Proofs.Schema.Reports

namespace Switchboard

namespace Unicode

variable {before cs after : List Char}

theorem dropWhile_of_head (h : ∀ c ∈ cs.head?, isBlank c = false) : cs.dropWhile isBlank = cs := by
  cases cs with
  | nil => rfl
  | cons c rest =>
    have hc : isBlank c = false := h c rfl
    rw [List.dropWhile_cons, hc]
    rfl

theorem trimBlanks_bounded (hbefore : ∀ c ∈ before, isBlank c = true)
    (hafter : ∀ c ∈ after, isBlank c = true) (hfirst : ∀ c ∈ cs.head?, isBlank c = false)
    (hlast : ∀ c ∈ cs.getLast?, isBlank c = false) :
    trimBlanks (before ++ cs ++ after) = cs := by
  have hback : ∀ c ∈ after.reverse, isBlank c = true := fun c hc =>
    hafter c (List.mem_reverse.mp hc)
  rw [← List.head?_reverse] at hlast
  rw [trimBlanks, List.append_assoc, List.dropWhile_append_of_pos hbefore]
  cases cs with
  | nil =>
    have hnil : after.dropWhile isBlank = [] := List.dropWhile_eq_nil_iff.mpr hafter
    rw [List.nil_append, hnil]
    rfl
  | cons c rest =>
    have hstart : (c :: rest ++ after).dropWhile isBlank = c :: rest ++ after :=
      dropWhile_of_head hfirst
    rw [hstart, List.reverse_append, List.dropWhile_append_of_pos hback, dropWhile_of_head hlast,
      List.reverse_reverse]

theorem trimBlanks_surrounded (hbefore : ∀ c ∈ before, isBlank c = true)
    (hafter : ∀ c ∈ after, isBlank c = true) (h : ∀ c ∈ cs, isBlank c = false) :
    trimBlanks (before ++ cs ++ after) = cs :=
  trimBlanks_bounded hbefore hafter (fun c hc => h c (List.mem_of_head? hc))
    fun c hc => h c (List.mem_of_getLast? hc)

theorem isBlank_of_isDigit {c : Char} (h : c.isDigit = true) : isBlank c = false := by
  have hall : ∀ n < 58, 48 ≤ n → isBlank (Char.ofNat n) = false := by decide
  have hrange : 48 ≤ c.toNat ∧ c.toNat ≤ 57 := by
    simpa [Char.isDigit, Char.le_def, UInt32.le_iff_toNat_le] using h
  have hblank := hall c.toNat (by omega) hrange.1
  rwa [Char.ofNat_toNat] at hblank

end Unicode

theorem decimalValue_eq (ds : List Char) : decimalValue ds = Nat.ofDigitChars 10 ds 0 := by
  unfold decimalValue Nat.ofDigitChars
  congr 1
  funext m c
  rw [Nat.mul_comm]
  rfl

theorem decimalValue_digitsOf (n : Nat) : decimalValue (digitsOf n) = n := by
  rw [decimalValue_eq, digitsOf, Nat.ofDigitChars_toDigits (by decide) (by decide)]

theorem isDigit_of_mem_digitsOf {n : Nat} {c : Char} (hc : c ∈ digitsOf n) : c.isDigit = true :=
  Nat.isDigit_of_mem_toDigits (by decide) (by decide) hc

theorem digitsOf_ne_nil (n : Nat) : digitsOf n ≠ [] := Nat.toDigits_ne_nil

theorem isBlank_of_mem_digitsOf {n : Nat} {c : Char} (hc : c ∈ digitsOf n) :
    Unicode.isBlank c = false :=
  Unicode.isBlank_of_isDigit (isDigit_of_mem_digitsOf hc)

theorem isBlank_of_mem_intText {n : Int} {c : Char} (hc : c ∈ intText n) :
    Unicode.isBlank c = false := by
  unfold intText at hc
  split at hc
  next =>
    rcases List.mem_cons.mp hc with rfl | hc
    · rfl
    · exact isBlank_of_mem_digitsOf hc
  next => exact isBlank_of_mem_digitsOf hc

theorem signedDigits_digitsOf (n : Nat) : signedDigits (digitsOf n) = (false, digitsOf n) := by
  have hall : ∀ c ∈ digitsOf n, c.isDigit = true := fun c hc => isDigit_of_mem_digitsOf hc
  cases hds : digitsOf n with
  | nil => rfl
  | cons c rest =>
    have hc : c.isDigit = true := hall c (hds ▸ List.mem_cons_self)
    unfold signedDigits
    split
    next heq =>
      cases (List.cons.inj heq).1
      cases hc
    next heq =>
      cases (List.cons.inj heq).1
      cases hc
    next => rfl

theorem signedDigits_intText (n : Int) :
    signedDigits (intText n) = (decide (n < 0), digitsOf n.natAbs) := by
  unfold intText
  split
  next hneg => rw [decide_eq_true hneg]; rfl
  next hpos => rw [decide_eq_false hpos, signedDigits_digitsOf]

/-- A number of 64 bits with a sign. -/
def FitsSigned (n : Int) : Prop := -2 ^ 63 ≤ n ∧ n < 2 ^ 63

instance (n : Int) : Decidable (FitsSigned n) := inferInstanceAs (Decidable (_ ∧ _))

theorem intOfText?_intText (n : Int) :
    intOfText? (intText n) = if FitsSigned n then some n else none := by
  have hpow : (Nat.pow 2 63 : Nat) = 9223372036854775808 := rfl
  have hdigits : (digitsOf n.natAbs).all Char.isDigit = true :=
    List.all_eq_true.mpr fun c hc => isDigit_of_mem_digitsOf hc
  have hempty : (digitsOf n.natAbs).isEmpty = false :=
    List.isEmpty_eq_false_iff.mpr (digitsOf_ne_nil _)
  unfold intOfText?
  rw [signedDigits_intText]
  dsimp only
  rw [hdigits, hempty, decimalValue_digitsOf, hpow]
  simp only [Bool.not_true, Bool.or_self, Bool.false_eq_true, if_false, decide_eq_true_eq]
  by_cases hneg : n < 0
  · have habs : -(n.natAbs : Int) = n := by omega
    have hfits : n.natAbs ≤ 9223372036854775808 ↔ FitsSigned n := by
      unfold FitsSigned
      omega
    rw [if_pos hneg, habs]
    simp only [hfits]
  · have habs : (n.natAbs : Int) = n := by omega
    have hfits : n.natAbs < 9223372036854775808 ↔ FitsSigned n := by
      unfold FitsSigned
      omega
    rw [if_neg hneg, habs]
    simp only [hfits]

def Blank (cs : List Char) : Prop := ∀ c ∈ cs, Unicode.isBlank c = true

theorem blank_nil : Blank [] := fun _ hc => absurd hc List.not_mem_nil

def spelled (before : List Char) (n : Int) (after : List Char) : Json :=
  .str (String.ofList (before ++ intText n ++ after))

theorem coerceInt?_spelled {before after : List Char} (hbefore : Blank before)
    (hafter : Blank after) (n : Int) :
    coerceInt? (spelled before n after) = if FitsSigned n then some (.int n) else none := by
  have htrim := Unicode.trimBlanks_surrounded hbefore hafter fun c hc =>
    isBlank_of_mem_intText (n := n) hc
  rw [spelled, coerceInt?, String.toList_ofList, htrim, intOfText?_intText]
  split <;> rfl

theorem coerceInt?_float {d : Double} {n : Int} (h : d.toInt? = some n) :
    coerceInt? (.float d) = if n.natAbs < 2 ^ 63 then some (.int n) else none := by
  have hpow : (Nat.pow 2 63 : Nat) = 2 ^ 63 := rfl
  rw [Json.float, coerceInt?, intOfDouble?, h, Option.filter_some, hpow]
  simp only [decide_eq_true_eq]
  split <;> rfl

theorem float_ne_null (d : Double) : Json.float d ≠ .null := by
  rintro ⟨⟩

theorem spelled_ne_null (before : List Char) (n : Int) (after : List Char) :
    spelled before n after ≠ .null := by
  rintro ⟨⟩

theorem Double.units_eq_of_toInt? {d : Double} {n : Int} (h : d.toInt? = some n) :
    d.units = n * unitsPerOne := by
  unfold toInt? at h
  split at h
  next hmod =>
    cases h
    exact (Int.ediv_mul_cancel (Int.dvd_of_emod_eq_zero hmod)).symm
  next => cases h

namespace Param

variable {t : Traits} {v : Json} {n : Int}

/-- The value is taken for the number, and reported on as the number is. -/
def ReadsAs (t : Traits) (v : Json) (n : Int) : Prop :=
  ∀ path errors, (scalar t .int).clean path (some v) errors =
    (some (.int n), errors ++ violations t path (.int n))

def Refuses (t : Traits) (v : Json) : Prop :=
  ∀ path errors, (scalar t .int).clean path (some v) errors =
    (none, errors ++ [(Fault.notScalar .int).at path])

theorem ne_null_of_coerceInt? (h : coerceInt? v = some (.int n)) : v ≠ .null := by
  rintro rfl
  cases h

theorem readsAs_of_coerceInt? (h : coerceInt? v = some (.int n)) : ReadsAs t v n := by
  intro path errors
  have hcoerce : Scalar.int.coerce? v = some (.int n) := by
    rw [Scalar.coerce?, h]
    rfl
  rw [clean_append, clean_scalar_eq (ne_null_of_coerceInt? h), hcoerce]
  dsimp only
  rw [check_eq, if_pos rfl]

theorem refuses_of_coerceInt? (hv : v ≠ .null) (h : coerceInt? v = none) : Refuses t v := by
  intro path errors
  have hcoerce : Scalar.int.coerce? v = none := by
    rw [Scalar.coerce?, h]
    rfl
  rw [clean_append, clean_scalar_eq hv, hcoerce]

/-- Whether a value is read as the number or refused depends on one bound. -/
theorem readsAs_iff_of_coerceInt? {bound : Prop} [Decidable bound] (hv : v ≠ .null)
    (h : coerceInt? v = if bound then some (.int n) else none) :
    (bound → ReadsAs t v n) ∧ (¬bound → Refuses t v) := by
  constructor
  · intro hbound
    rw [if_pos hbound] at h
    exact readsAs_of_coerceInt? h
  · intro hbound
    rw [if_neg hbound] at h
    exact refuses_of_coerceInt? hv h

end Param

/-- What a whole number is read from, by parameters with any traits. -/
structure ReadAlike (n : Int) : Prop where
  number : ∀ t, Param.ReadsAs t (.int n) n
  text : ∀ t before after, Blank before → Blank after →
    (FitsSigned n → Param.ReadsAs t (spelled before n after) n) ∧
      (¬FitsSigned n → Param.Refuses t (spelled before n after))
  float : ∀ t (d : Double), d.toInt? = some n →
    (n.natAbs < 2 ^ 63 → Param.ReadsAs t (.float d) n) ∧
      (¬n.natAbs < 2 ^ 63 → Param.Refuses t (.float d))
  written : ∀ s t path, FitsSigned n → ∃ text,
    (Param.scalar s .str).valueOf path (some (.int n)) = some (.str text) ∧
      Param.ReadsAs t (.str text) n

theorem readAlike (n : Int) : ReadAlike n where
  number t := Param.readsAs_of_coerceInt? rfl
  text t before after hbefore hafter :=
    Param.readsAs_iff_of_coerceInt? (spelled_ne_null before n after)
      (coerceInt?_spelled hbefore hafter n)
  float t d hd := Param.readsAs_iff_of_coerceInt? (float_ne_null d) (coerceInt?_float hd)
  written s t path hfits := by
    refine ⟨String.ofList (intText n), Param.check_value s path [] _, ?_⟩
    have htext : coerceInt? (spelled [] n []) = if FitsSigned n then some (.int n) else none :=
      coerceInt?_spelled blank_nil blank_nil n
    rw [if_pos hfits, spelled, List.nil_append, List.append_nil] at htext
    exact Param.readsAs_of_coerceInt? htext

/-- A whole number, its text and its double are read alike where they have no more than 63 bits
beside the sign, and what is made of a double has its value. -/
theorem whole_numbers_read_alike (n : Int) :
    ReadAlike n ∧
      ∀ t path (d : Double) c, (Param.scalar t .int).valueOf path (some (.float d)) = some c →
        ∃ m, c = .int m ∧ d.units = m * unitsPerOne := by
  refine ⟨readAlike n, fun t path d c hc => ?_⟩
  cases hwhole : d.toInt? with
  | none =>
    have hnone : coerceInt? (.float d) = none := by
      rw [Json.float, coerceInt?, intOfDouble?, hwhole]
      rfl
    have hrefuses : Param.Refuses t (.float d) :=
      Param.refuses_of_coerceInt? (float_ne_null d) hnone
    rw [Param.valueOf, hrefuses path []] at hc
    cases hc
  | some m =>
    refine ⟨m, ?_, Double.units_eq_of_toInt? hwhole⟩
    obtain ⟨hread, hrefuse⟩ := (readAlike m).float t d hwhole
    by_cases hsmall : m.natAbs < 2 ^ 63
    · rw [Param.valueOf, hread hsmall path []] at hc
      exact (Option.some.inj hc).symm
    · rw [Param.valueOf, hrefuse hsmall path []] at hc
      cases hc

/-- A word of 64 bits is a whole number, and its text is what a parameter for texts makes of it, but
the text is refused; so is the double of the least number with a sign. -/
theorem words_not_read_from_texts :
    (Param.int "n").clean "n" (some (.int 9223372036854775808)) [] =
        (some (.int 9223372036854775808), []) ∧
      (Param.str "n").clean "n" (some (.int 9223372036854775808)) [] =
        (some (.str "9223372036854775808"), []) ∧
      (Param.int "n").clean "n" (some (.str "9223372036854775808")) [] =
        (none, [⟨"n", .invalidType, "Not an integer"⟩]) ∧
      ∃ d : Double, d.toInt? = some (-9223372036854775808) ∧
        (Param.int "n").clean "n" (some (.int (-9223372036854775808))) [] =
          (some (.int (-9223372036854775808)), []) ∧
        (Param.int "n").clean "n" (some (.float d)) [] =
          (none, [⟨"n", .invalidType, "Not an integer"⟩]) := by
  have hwhole : Double.toInt? ⟨true, 4890909195324358656, by decide +kernel⟩ =
      some (-9223372036854775808) := by
    decide +kernel
  have hrefused := ((readAlike (-9223372036854775808)).float { name := "n" } _ hwhole).2 (by decide)
  exact ⟨rfl, rfl, rfl, _, hwhole, rfl, hrefused "n" []⟩

end Switchboard
