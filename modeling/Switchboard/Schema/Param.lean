import Switchboard.Schema.FieldError
import Switchboard.Schema.Validator

namespace Switchboard

inductive Scalar where
  | any | bool | int | float | str | ipAddress
deriving DecidableEq

structure Traits where
  name : String
  required : Bool := false
  default : Option Json := none
  nullable : Bool := false
  validators : List Validator := []
  description : Option String := none

inductive Param where
  | scalar (traits : Traits) (type : Scalar)
  | dict (traits : Traits) (attrs : List Param) (extensible : Bool)
  /-- A list each item of which has one of the given types, or any type if there are none. -/
  | list (traits : Traits) (items : List Param)

namespace Traits

def relax (t : Traits) : Traits := { t with required := false, default := none }

end Traits

namespace Param

def traits : Param → Traits
  | scalar t _ => t
  | dict t _ _ => t
  | list t _ => t

def name (p : Param) : String := p.traits.name

def mapTraits (f : Traits → Traits) : Param → Param
  | scalar t type => scalar (f t) type
  | dict t attrs extensible => dict (f t) attrs extensible
  | list t items => list (f t) items

def require (p : Param) : Param := p.mapTraits fun t => { t with required := true }

def withDefault (p : Param) (v : Json) : Param := p.mapTraits fun t => { t with default := some v }

def withValidator (p : Param) (v : Validator) : Param :=
  p.mapTraits fun t => { t with validators := t.validators ++ [v] }

def bool (name : String) : Param := scalar { name } .bool

def int (name : String) : Param := scalar { name } .int

def str (name : String) : Param := scalar { name } .str

mutual

/-- The same schema with nothing required and no defaults, down through dictionaries. -/
def relax : Param → Param
  | scalar t type => scalar t.relax type
  | dict t attrs extensible => dict t.relax (relaxAll attrs) extensible
  | list t items => list t.relax items

def relaxAll : List Param → List Param
  | [] => []
  | p :: ps => relax p :: relaxAll ps

end

end Param

def Scalar.name : Scalar → String
  | .any => "any"
  | .bool => "boolean"
  | .int => "integer"
  | .float => "number"
  | .str => "string"
  | .ipAddress => "ipaddr"

namespace Param

def optionalField (key : String) : Option Json → List (String × Json)
  | some v => [(key, v)]
  | none => []

def describeTraits (t : Traits) (type : String) : List (String × Json) :=
  [("_name_", .str t.name), ("type", .str type), ("required", .bool t.required),
    ("null", .bool t.nullable)] ++
    optionalField "default" t.default ++ optionalField "description" (t.description.map .str)

mutual

def describe : Param → Json
  | scalar t type => .ofFields (describeTraits t type.name)
  | dict t attrs extensible =>
    .ofFields (describeTraits t "object" ++
      [("properties", .arr (describeAll attrs)), ("additional_attrs", .bool extensible)])
  | list t items => .ofFields (describeTraits t "array" ++ [("items", .arr (describeAll items))])

def describeAll : List Param → List Json
  | [] => []
  | p :: ps => describe p :: describeAll ps

end

end Param

end Switchboard
