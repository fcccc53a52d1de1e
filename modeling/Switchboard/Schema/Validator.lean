import Switchboard.JsonText
import Switchboard.PatternReader
import Switchboard.Quoted

namespace Switchboard

inductive Validator where
  | range (low high : Option Double)
  | length (low high : Option Nat)
  | oneOf (values : List Json)
  | matching (source : String) (condition : String → Bool) (explanation : Option String)

inductive Violation where
  | outside (low high : Double)
  | below (low : Double)
  | above (high : Double)
  | tooShort (low : Nat)
  | tooLong (high : Nat)
  | noChoice (values : List Json)
  | noMatch (source : String)
  | explained (text : String)

/-- Bounds are written as whole numbers where they are whole and below 2^63. -/
def boundText (d : Double) : String :=
  match d.toInt? with
  | some n => if n.natAbs < Nat.pow 2 63 then String.ofList (intText n) else d.plainText
  | none => d.plainText

namespace Violation

def message : Violation → String
  | outside low high => "Should be between " ++ boundText low ++ " and " ++ boundText high
  | below low => "Should be greater or equal than " ++ boundText low
  | above high => "Should be lower or equal than " ++ boundText high
  | tooShort low => "Length should be at least " ++ toString low
  | tooLong high => "Length should be at most " ++ toString high
  | noChoice values => "Should be one of: " ++ ", ".intercalate (values.map Json.text)
  | noMatch source => "Value does not match " ++ quoted source ++ " pattern"
  | explained text => text

end Violation

namespace Validator

def ofPattern [PatternReader] (source : String) (explanation : Option String) :
    Except String Validator :=
  (PatternReader.read source).map fun condition => matching source condition explanation

def rangeViolation? (low high : Option Double) (units : Int) : Option Violation :=
  let tooLow := low.filter fun d => units < d.units
  let tooHigh := high.filter fun d => d.units < units
  match low, high with
  | some l, some h => if tooLow.isSome || tooHigh.isSome then some (.outside l h) else none
  | _, _ => (tooLow.map .below).or (tooHigh.map .above)

def lengthViolation? (low high : Option Nat) (n : Nat) : Option Violation :=
  ((low.filter (n < ·)).map .tooShort).or ((high.filter (· < n)).map .tooLong)

/-- How a value breaks the condition, if it does; values of other types keep it. -/
def violation? : Validator → Json → Option Violation
  | range low high, .num n => rangeViolation? low high n.units
  | length low high, .str s => lengthViolation? low high s.length
  | length low high, .arr items => lengthViolation? low high items.length
  | oneOf values, v => if values.any (v.same ·) then none else some (.noChoice values)
  | matching source condition explanation, .str s =>
    if condition s then none
    else match explanation with
      | some text => some (.explained text)
      | none => some (.noMatch source)
  | _, _ => none

def accepts (v : Validator) (value : Json) : Prop := v.violation? value = none

end Validator

end Switchboard
