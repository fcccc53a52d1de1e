import Switchboard.Double

namespace Switchboard

def decimalLength (n : Nat) : Nat := (Nat.toDigits 10 n).length

structure Decimal where
  digits : Nat
  exponent : Int
deriving DecidableEq

namespace Decimal

/-- The double nearest to a decimal, unless it is too large. Exponents far outside the range of
doubles are settled by the number of digits. -/
def toDouble? (negative : Bool) (d : Decimal) : Option Double :=
  let size := decimalLength d.digits + d.exponent
  if d.digits = 0 ∨ size < -400 then some { Double.zero with negative }
  else if 400 < size then none
  else if 0 ≤ d.exponent then Double.ofRatio? negative (d.digits * Nat.pow 10 d.exponent.toNat) 1
  else Double.ofRatio? negative d.digits (Nat.pow 10 (-d.exponent).toNat)

def normalize (d : Decimal) : Decimal :=
  let zeros := ((Nat.toDigits 10 d.digits).reverse.takeWhile (· = '0')).length
  if d.digits = 0 then ⟨0, 0⟩ else ⟨d.digits / Nat.pow 10 zeros, d.exponent + zeros⟩

end Decimal

namespace Double

def leadingExponent (m : Nat) : Int :=
  if unitsPerOne ≤ m then (decimalLength (m / unitsPerOne) : Int) - 1
  else -(decimalLength ((unitsPerOne + m - 1) / m - 1) : Int)

/-- The decimals with exponent `e` on both sides of a magnitude that read back as `d`, the nearer
one first. -/
def readBack (d : Double) (e : Int) : List Decimal :=
  let num := d.magnitude * Nat.pow 10 (-e).toNat
  let den := unitsPerOne * Nat.pow 10 e.toNat
  let low := num / den
  let twice := 2 * (num % den)
  let nearUp := den < twice ∨ (den = twice ∧ low % 2 = 1)
  let order := if nearUp then [low + 1, low] else [low, low + 1]
  (order.map (Decimal.mk · e)).filter fun c => c.toDouble? d.negative = some d

/-- The shortest decimal that reads back as `d`, and of those the nearest. -/
def shortest (d : Double) : Decimal :=
  if d.magnitude = 0 then ⟨0, 0⟩
  else
    let lead := leadingExponent d.magnitude
    let found := (List.range 17).findSome? fun (n : Nat) => (d.readBack (lead - n)).head?
    (found.getD ⟨0, 0⟩).normalize

end Double

def digitsOf (n : Nat) : List Char := Nat.toDigits 10 n

def decimalValue (ds : List Char) : Nat := ds.foldl (fun n c => n * 10 + (c.toNat - 48)) 0

def Decimal.positional (d : Decimal) : List Char :=
  let ds := digitsOf d.digits
  if 0 ≤ d.exponent then ds ++ List.replicate d.exponent.toNat '0'
  else
    let places := (-d.exponent).toNat
    let padded := List.replicate (places + 1 - ds.length) '0' ++ ds
    padded.take (padded.length - places) ++ '.' :: padded.drop (padded.length - places)

def Decimal.scientific (d : Decimal) : List Char :=
  let ds := digitsOf d.digits
  let exponent := d.exponent + ds.length - 1
  let fraction := if ds.length = 1 then [] else '.' :: ds.drop 1
  let sign := if exponent < 0 then '-' else '+'
  ds.take 1 ++ fraction ++ 'e' :: sign :: digitsOf exponent.natAbs

/-- The plain text of a double: never an exponent, and no point in a whole number. -/
def Double.plainText (d : Double) : String :=
  String.ofList ((if d.negative then ['-'] else []) ++ d.shortest.positional)

end Switchboard
