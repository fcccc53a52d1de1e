import Switchboard.Decimal
import Switchboard.Json

namespace Switchboard

/-- How doubles are written in JSON: positional from `1e-5` up to `1e16`, with `.0` on whole
numbers, and otherwise with a signed exponent. -/
def Double.jsonText (d : Double) : List Char :=
  let s := d.shortest
  let lead := s.exponent + (digitsOf s.digits).length - 1
  let body :=
    if lead < -5 ∨ 16 ≤ lead then s.scientific
    else if 0 ≤ s.exponent then s.positional ++ ['.', '0']
    else s.positional
  if d.negative then '-' :: body else body

def intText (n : Int) : List Char :=
  if n < 0 then '-' :: digitsOf n.natAbs else digitsOf n.natAbs

def Number.text : Number → List Char
  | .int n => intText n
  | .float d => d.jsonText

namespace Json

def hexUnit (n : Nat) : List Char :=
  let digit (k : Nat) : Char := Nat.digitChar (n / Nat.pow 16 k % 16)
  [digit 3, digit 2, digit 1, digit 0]

def escapeChar (c : Char) : List Char :=
  match c with
  | '"' => ['\\', '"']
  | '\\' => ['\\', '\\']
  | '\n' => ['\\', 'n']
  | '\r' => ['\\', 'r']
  | '\t' => ['\\', 't']
  | '\x08' => ['\\', 'b']
  | '\x0c' => ['\\', 'f']
  | c => if c.toNat < 32 then '\\' :: 'u' :: hexUnit c.toNat else [c]

def quote (s : String) : List Char := '"' :: (s.toList.flatMap escapeChar ++ ['"'])

mutual

def chars : Json → List Char
  | null => "null".toList
  | bool true => "true".toList
  | bool false => "false".toList
  | num n => n.text
  | str s => quote s
  | arr [] => ['[', ']']
  | arr (v :: vs) => '[' :: (chars v ++ itemChars vs)
  | obj [] => ['\x7b', '\x7d']
  | obj ((k, v) :: fs) => '\x7b' :: (quote k ++ ':' :: (chars v ++ fieldChars fs))

def itemChars : List Json → List Char
  | [] => [']']
  | v :: vs => ',' :: (chars v ++ itemChars vs)

def fieldChars : List (String × Json) → List Char
  | [] => ['\x7d']
  | (k, v) :: fs => ',' :: (quote k ++ ':' :: (chars v ++ fieldChars fs))

end

def text (v : Json) : String := String.ofList v.chars

end Json

namespace Json.Reader

def isBlank (c : Char) : Bool := c == ' ' || c == '\n' || c == '\t' || c == '\r'

def skipBlanks (cs : List Char) : List Char := cs.dropWhile isBlank

structure Mantissa where
  digits : Nat
  dropped : Nat
  full : Bool

def Mantissa.push (m : Mantissa) (c : Char) : Mantissa :=
  let next := m.digits * 10 + (c.toNat - 48)
  if m.full ∨ Nat.pow 2 64 ≤ next then { m with dropped := m.dropped + 1, full := true }
  else { m with digits := next }

/-- `digits · 10 ^ exponent` in double arithmetic: one multiplication or division by a power of
ten up to 10^308, after divisions by 10^308 for smaller exponents. -/
def scale (negative : Bool) (d : Double) : Nat → Int → Option Double
  | 0, _ => some { d with negative }
  | fuel + 1, exponent => do
    let power ← (Decimal.mk 1 (min exponent.natAbs 308)).toDouble? false
    if exponent.natAbs ≤ 308 then
      let scaled ← if 0 ≤ exponent then d.mul? power else d.div? power
      some { scaled with negative }
    else if d.rank = 0 then some { d with negative }
    else if 0 ≤ exponent then none
    else scale negative (← d.div? power) fuel (exponent + 308)

def scaled? (negative : Bool) (digits : Nat) (exponent : Int) : Option Double := do
  let d ← Double.ofInt? digits
  if exponent < -2000 then some { Double.zero with negative }
  else scale negative d 10 exponent

def exponentPart (cs : List Char) : Option (Option Int × List Char) :=
  match cs with
  | c :: rest =>
    if c == 'e' || c == 'E' then
      let (negative, rest) := match rest with
        | '+' :: r => (false, r)
        | '-' :: r => (true, r)
        | r => (false, r)
      let ds := rest.takeWhile Char.isDigit
      if ds.isEmpty then none
      else
        let n := decimalValue ds
        some (some (if negative then -(n : Int) else n), rest.dropWhile Char.isDigit)
    else some (none, cs)
  | [] => some (none, [])

def number (cs : List Char) : Option (Number × List Char) := do
  let (negative, cs) := match cs with
    | '-' :: r => (true, r)
    | r => (false, r)
  let ds := cs.takeWhile Char.isDigit
  let rest := cs.dropWhile Char.isDigit
  if ds.isEmpty ∨ (1 < ds.length ∧ ds.head? = some '0') then none
  let m := ds.foldl Mantissa.push ⟨0, 0, false⟩
  let (fraction, rest) ← match rest with
    | '.' :: r =>
      let fs := r.takeWhile Char.isDigit
      if fs.isEmpty then none else some (some fs, r.dropWhile Char.isDigit)
    | r => some (none, r)
  let (exponent, rest) ← exponentPart rest
  if fraction.isNone ∧ exponent.isNone ∧ !m.full then
    if !negative then some (.int m.digits, rest)
    else if m.digits = 0 then some (.float { Double.zero with negative := true }, rest)
    else if m.digits ≤ Nat.pow 2 63 then some (.int (-m.digits), rest)
    else some (.float (← scaled? true m.digits 0), rest)
  else
    let whole := m.dropped
    let m := (fraction.getD []).foldl Mantissa.push { m with dropped := 0, full := false }
    let shift : Int := whole - ((fraction.getD []).length - m.dropped : Int)
    let d ← scaled? negative m.digits (shift + exponent.getD 0)
    some (.float d, rest)

def hexValue? (c : Char) : Option Nat :=
  if c.isDigit then some (c.toNat - 48)
  else if 'a' ≤ c ∧ c ≤ 'f' then some (c.toNat - 87)
  else if 'A' ≤ c ∧ c ≤ 'F' then some (c.toNat - 55)
  else none

def unit (cs : List Char) : Option (Nat × List Char) :=
  match cs with
  | a :: b :: c :: d :: rest => do
    let a ← hexValue? a
    let b ← hexValue? b
    let c ← hexValue? c
    let d ← hexValue? d
    some (((a * 16 + b) * 16 + c) * 16 + d, rest)
  | _ => none

def escaped (cs : List Char) : Option (Char × List Char) :=
  match cs with
  | '"' :: r => some ('"', r)
  | '\\' :: r => some ('\\', r)
  | '/' :: r => some ('/', r)
  | 'b' :: r => some ('\x08', r)
  | 'f' :: r => some ('\x0c', r)
  | 'n' :: r => some ('\n', r)
  | 'r' :: r => some ('\r', r)
  | 't' :: r => some ('\t', r)
  | 'u' :: r => do
    let (high, r) ← unit r
    if 0xd800 ≤ high ∧ high < 0xdc00 then
      match r with
      | '\\' :: 'u' :: r =>
        let (low, r) ← unit r
        if 0xdc00 ≤ low ∧ low < 0xe000 then
          some (Char.ofNat (0x10000 + (high - 0xd800) * 0x400 + (low - 0xdc00)), r)
        else none
      | _ => none
    else if 0xdc00 ≤ high ∧ high < 0xe000 then none
    else some (Char.ofNat high, r)
  | _ => none

def string : Nat → List Char → List Char → Option (String × List Char)
  | 0, _, _ => none
  | fuel + 1, acc, cs =>
    match cs with
    | [] => none
    | '"' :: rest => some (String.ofList acc.reverse, rest)
    | '\\' :: rest =>
      match escaped rest with
      | some (c, rest) => string fuel (c :: acc) rest
      | none => none
    | c :: rest => if c.toNat < 32 then none else string fuel (c :: acc) rest

def literal (word : String) (value : Json) (cs : List Char) : Option (Json × List Char) :=
  if word.toList.isPrefixOf cs then some (value, cs.drop word.length) else none

mutual

def value : Nat → List Char → Option (Json × List Char)
  | 0, _ => none
  | fuel + 1, cs =>
    match skipBlanks cs with
    | '\x7b' :: rest =>
      match skipBlanks rest with
      | '\x7d' :: rest => some (obj [], rest)
      | rest => fields fuel [] rest
    | '[' :: rest =>
      match skipBlanks rest with
      | ']' :: rest => some (arr [], rest)
      | rest => items fuel [] rest
    | '"' :: rest => (string (rest.length + 1) [] rest).map fun (s, rest) => (str s, rest)
    | 't' :: rest => literal "rue" (bool true) rest
    | 'f' :: rest => literal "alse" (bool false) rest
    | 'n' :: rest => literal "ull" null rest
    | cs => (number cs).map fun (n, rest) => (num n, rest)

def items : Nat → List Json → List Char → Option (Json × List Char)
  | 0, _, _ => none
  | fuel + 1, acc, cs =>
    match value fuel cs with
    | none => none
    | some (v, rest) =>
      match skipBlanks rest with
      | ',' :: rest => items fuel (v :: acc) rest
      | ']' :: rest => some (arr (v :: acc).reverse, rest)
      | _ => none

def fields : Nat → List (String × Json) → List Char → Option (Json × List Char)
  | 0, _, _ => none
  | fuel + 1, acc, cs =>
    match skipBlanks cs with
    | '"' :: rest =>
      match string (rest.length + 1) [] rest with
      | none => none
      | some (key, rest) =>
        match skipBlanks rest with
        | ':' :: rest =>
          match value fuel rest with
          | none => none
          | some (v, rest) =>
            match skipBlanks rest with
            | ',' :: rest => fields fuel ((key, v) :: acc) rest
            | '\x7d' :: rest => some (ofFields ((key, v) :: acc).reverse, rest)
            | _ => none
        | _ => none
    | _ => none

end

end Json.Reader

def Json.ofText? (s : String) : Option Json :=
  let cs := s.toList
  match Json.Reader.value (cs.length + 1) cs with
  | some (v, rest) => if (Json.Reader.skipBlanks rest).isEmpty then some v else none
  | none => none

end Switchboard
