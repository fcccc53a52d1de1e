import Switchboard.Address
import Switchboard.JsonText
import Switchboard.Quoted

namespace Switchboard

inductive DecodeError where
  | invalidType (found : Json) (wanted : String)
  | invalidValue (found : Json) (wanted : String)
  | unknownField (name : String) (known : List String)
  | unknownVariant (name : String) (known : List String)
  | invalidLength (length : Nat) (wanted : String)

namespace DecodeError

def describe : Json → String
  | .null => "null"
  | .bool b => "boolean \x60" ++ toString b ++ "\x60"
  | .num (.int n) => "integer \x60" ++ toString n ++ "\x60"
  | .num (.float d) => "floating point \x60" ++ String.ofList d.jsonText ++ "\x60"
  | .str s => "string " ++ quoted s
  | .arr _ => "sequence"
  | .obj _ => "map"

def choices : List String → String
  | [] => "there are no fields"
  | [a] => "expected \x60" ++ a ++ "\x60"
  | [a, b] => "expected \x60" ++ a ++ "\x60 or \x60" ++ b ++ "\x60"
  | names => "expected one of " ++ ", ".intercalate (names.map fun n => "\x60" ++ n ++ "\x60")

def message : DecodeError → String
  | invalidType found wanted => "invalid type: " ++ describe found ++ ", expected " ++ wanted
  | invalidValue found wanted => "invalid value: " ++ describe found ++ ", expected " ++ wanted
  | unknownField name known => "unknown field \x60" ++ name ++ "\x60, " ++ choices known
  | unknownVariant name known => "unknown variant \x60" ++ name ++ "\x60, " ++ choices known
  | invalidLength length wanted => "invalid length " ++ toString length ++ ", expected " ++ wanted

end DecodeError

namespace Decode

abbrev Result (α : Type) := Except DecodeError α

def bool : Json → Result Bool
  | .bool b => .ok b
  | v => .error (.invalidType v "a boolean")

def string : Json → Result String
  | .str s => .ok s
  | v => .error (.invalidType v "a string")

def word (wanted : String) (v : Json) : Result Nat :=
  match v with
  | .num (.int n) => if n < 0 then .error (.invalidValue v wanted) else .ok n.toNat
  | _ => .error (.invalidType v wanted)

def count : Json → Result Nat := word "a whole number"

def list {α : Type} (item : Json → Result α) : Json → Result (List α)
  | .arr items => items.mapM item
  | v => .error (.invalidType v "a sequence")

def option {α : Type} (value : Json → Result α) : Json → Result (Option α)
  | .null => .ok none
  | v => (value v).map some

def socketAddress (v : Json) : Result SocketAddress := do
  let s ← string v
  match SocketAddress.ofText? s with
  | some a => .ok a
  | none => .error (.invalidValue v "socket address")

/-- One of several named values, written as its name or as an object with the name for a key. -/
def variant {α : Type} (known : List (String × α)) (v : Json) : Result α :=
  let pick (name : String) : Result α :=
    match known.lookup name with
    | some a => .ok a
    | none => .error (.unknownVariant name (known.map Prod.fst))
  match v with
  | .str name => pick name
  | .obj [(name, content)] => do
    let a ← pick name
    if content.isNull then .ok a else .error (.invalidType content "unit")
  | .obj _ => .error (.invalidValue v "map with a single key")
  | _ => .error (.invalidType v "string or map")

structure Layout (α : Type) where
  name : String
  fields : List (String × (α → Json → Result α))
  sparse : Bool

def Layout.setField {α : Type} (layout : Layout α) (acc : α) (field : String × Json) : Result α :=
  match layout.fields.lookup field.1 with
  | some set => set acc field.2
  | none => .error (.unknownField field.1 (layout.fields.map Prod.fst))

def Layout.setItem {α : Type} (acc : α) (item : (String × (α → Json → Result α)) × Json) :
    Result α := item.1.2 acc item.2

/-- A record from an object, field by field in the order of its keys, or from a list of values in
the order of the fields; `start` gives the fields that are not there. -/
def record {α : Type} (layout : Layout α) (start : α) (v : Json) : Result α :=
  match v with
  | .obj fields => fields.foldlM layout.setField start
  | .arr items => do
    let acc ← (layout.fields.zip items).foldlM Layout.setItem start
    if items.length < layout.fields.length ∧ !layout.sparse then
      .error (.invalidLength items.length
        ("struct " ++ layout.name ++ " with " ++ toString layout.fields.length ++ " elements"))
    else if layout.fields.length < items.length then
      .error (.invalidLength items.length "fewer elements in array")
    else .ok acc
  | _ => .error (.invalidType v ("struct " ++ layout.name))

end Decode

end Switchboard
