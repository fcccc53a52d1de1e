import Switchboard.Double

namespace Switchboard

inductive Number where
  | int (n : Int)
  | float (d : Double)
deriving DecidableEq, Inhabited

namespace Number

def units : Number → Int
  | int n => unitsOfInt n
  | float d => d.units

/-- Identity of numbers: a whole number is never a double, and both zeros are one double. -/
def same : Number → Number → Bool
  | int a, int b => a == b
  | float a, float b => a.units == b.units
  | _, _ => false

end Number

inductive Json where
  | null
  | bool (b : Bool)
  | num (n : Number)
  | str (s : String)
  | arr (items : List Json)
  | obj (fields : List (String × Json))
deriving Inhabited

abbrev Fields := List (String × Json)

namespace Fields

def get? (fields : Fields) (key : String) : Option Json := fields.lookup key

def contains (fields : Fields) (key : String) : Bool := (fields.lookup key).isSome

def keys (fields : Fields) : List String := fields.map Prod.fst

def insert (key : String) (value : Json) : Fields → Fields
  | [] => [(key, value)]
  | (k, v) :: rest =>
    if key < k then (key, value) :: (k, v) :: rest
    else if key = k then (key, value) :: rest
    else (k, v) :: insert key value rest

def insertAll (fields : Fields) (more : List (String × Json)) : Fields :=
  more.foldl (fun acc f => acc.insert f.1 f.2) fields

def ofList (fields : List (String × Json)) : Fields := insertAll [] fields

end Fields

inductive JsonType where
  | null | bool | number | string | array | object
deriving DecidableEq

namespace JsonType

def rank : JsonType → Nat
  | null => 0
  | bool => 1
  | number => 2
  | string => 3
  | array => 4
  | object => 5

end JsonType

namespace Json

def int (n : Int) : Json := num (.int n)

def nat (n : Nat) : Json := int n

def float (d : Double) : Json := num (.float d)

def ofFields (fields : List (String × Json)) : Json := obj (Fields.ofList fields)

def ofOption : Option Json → Json
  | none => null
  | some v => v

def ofString? : Option String → Json
  | none => null
  | some s => str s

def ofNat? : Option Nat → Json
  | none => null
  | some n => nat n

def type : Json → JsonType
  | null => .null
  | bool _ => .bool
  | num _ => .number
  | str _ => .string
  | arr _ => .array
  | obj _ => .object

def isNull : Json → Bool
  | null => true
  | _ => false

def isObject : Json → Bool
  | obj _ => true
  | _ => false

def get? (v : Json) (key : String) : Option Json :=
  match v with
  | obj fields => Fields.get? fields key
  | _ => none

def asWord? : Json → Option Nat
  | num (.int n) => if 0 ≤ n ∧ n < Int.pow 2 64 then some n.toNat else none
  | _ => none

mutual

def same : Json → Json → Bool
  | null, null => true
  | bool a, bool b => a == b
  | num a, num b => a.same b
  | str a, str b => a == b
  | arr a, arr b => sameItems a b
  | obj a, obj b => sameFields a b
  | _, _ => false

def sameItems : List Json → List Json → Bool
  | [], [] => true
  | a :: as, b :: bs => same a b && sameItems as bs
  | _, _ => false

def sameFields : List (String × Json) → List (String × Json) → Bool
  | [], [] => true
  | (k, a) :: as, (l, b) :: bs => k == l && same a b && sameFields as bs
  | _, _ => false

end

end Json

end Switchboard
