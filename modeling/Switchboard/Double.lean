namespace Switchboard

/-- A nearest whole number to `num / den`, an exact half going to the even one. -/
def roundHalfEven (num den : Nat) : Nat :=
  let q := num / den
  let r := num % den
  if den < 2 * r ∨ (den = 2 * r ∧ q % 2 = 1) then q + 1 else q

def unitsPerOne : Nat := Nat.pow 2 1074

def unitsOfRank (r : Nat) : Nat :=
  let half := Nat.pow 2 52
  if r < half then r else (half + r % half) * Nat.pow 2 (r / half - 1)

/-- The rank nearest to `num / den` units, ties going to the even mantissa. -/
def rankOfUnits (num den : Nat) : Nat :=
  let shift := (num / den).log2 - 52
  shift * Nat.pow 2 52 + roundHalfEven num (den * Nat.pow 2 shift)

def Double.rankLimit : Nat := 2047 * Nat.pow 2 52

structure Double where
  negative : Bool
  rank : Nat
  rank_lt : rank < Double.rankLimit
deriving DecidableEq

namespace Double

def zero : Double := ⟨false, 0, by decide⟩

instance : Inhabited Double := ⟨zero⟩

def magnitude (d : Double) : Nat := unitsOfRank d.rank

/-- The value in units of 2^-1074; both zeros have the value 0. -/
def units (d : Double) : Int := if d.negative then -d.magnitude else d.magnitude

def ofUnits? (negative : Bool) (num den : Nat) : Option Double :=
  let rank := rankOfUnits num den
  if h : rank < rankLimit then some ⟨negative, rank, h⟩ else none

def ofRatio? (negative : Bool) (num den : Nat) : Option Double :=
  ofUnits? negative (num * unitsPerOne) den

def ofInt? (n : Int) : Option Double := ofRatio? (decide (n < 0)) n.natAbs 1

def neg (d : Double) : Double := { d with negative := !d.negative }

def mul? (a b : Double) : Option Double :=
  ofUnits? (a.negative != b.negative) (a.magnitude * b.magnitude) unitsPerOne

def div? (a b : Double) : Option Double :=
  if b.magnitude = 0 then none
  else ofUnits? (a.negative != b.negative) (a.magnitude * unitsPerOne) b.magnitude

def toInt? (d : Double) : Option Int :=
  if d.units % unitsPerOne = 0 then some (d.units / unitsPerOne) else none

end Double

/-- A whole number as a double, in units of 2^-1074, with the exponent unbounded. -/
def unitsOfInt (n : Int) : Int :=
  let size := unitsOfRank (rankOfUnits (n.natAbs * unitsPerOne) 1)
  if n < 0 then -size else size

end Switchboard
