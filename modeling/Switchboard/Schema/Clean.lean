import Switchboard.Address
import Switchboard.Schema.Param

namespace Switchboard

inductive Fault where
  | missing
  | null
  | notScalar (type : Scalar)
  | notDict
  | notList
  | noItemType (names : List String)
  | unexpected
  | violated (violation : Violation)
  | tooManyArguments (most got : Nat)

namespace Fault

def kind : Fault → FieldErrorKind
  | missing => .required
  | null => .nullNotAllowed
  | notScalar _ | notDict | notList | noItemType _ => .invalidType
  | unexpected | tooManyArguments _ _ => .unexpectedField
  | violated _ => .constraint

def message : Fault → String
  | missing => "attribute required"
  | null => "null not allowed"
  | notScalar .any => "Not a value"
  | notScalar .bool => "Not a boolean"
  | notScalar .int => "Not an integer"
  | notScalar .float => "Not a number"
  | notScalar .str => "Not a string"
  | notScalar .ipAddress => "Not a valid IP address"
  | notDict => "Not a dictionary"
  | notList => "Not a list"
  | noItemType names => "Item is not valid per list types: " ++ ", ".intercalate names
  | unexpected => "Field was not expected"
  | violated violation => violation.message
  | tooManyArguments most got =>
    "Too many arguments (expected at most " ++ toString most ++ ", got " ++ toString got ++ ")"

def «at» (f : Fault) (path : String) : FieldError := ⟨path, f.kind, f.message⟩

end Fault

def signedDigits (cs : List Char) : Bool × List Char :=
  match cs with
  | '-' :: rest => (true, rest)
  | '+' :: rest => (false, rest)
  | _ => (false, cs)

def intOfText? (cs : List Char) : Option Int :=
  let (negative, ds) := signedDigits cs
  let n := decimalValue ds
  if ds.isEmpty || !ds.all Char.isDigit then none
  else if negative then if n ≤ Nat.pow 2 63 then some (-n) else none
  else if n < Nat.pow 2 63 then some n else none

def exponentOfText? (cs : List Char) : Option Int :=
  match cs with
  | [] => some 0
  | c :: rest =>
    let (negative, ds) := signedDigits rest
    if !(c == 'e' || c == 'E') || ds.isEmpty || !ds.all Char.isDigit then none
    else some (if negative then -(decimalValue ds : Int) else decimalValue ds)

def doubleOfText? (cs : List Char) : Option Double := do
  let (negative, cs) := signedDigits cs
  let whole := cs.takeWhile Char.isDigit
  let rest := cs.drop whole.length
  let (fraction, rest) := match rest with
    | '.' :: more =>
      let ds := more.takeWhile Char.isDigit
      (ds, more.drop ds.length)
    | _ => ([], rest)
  if whole.isEmpty && fraction.isEmpty then none
  let exponent ← exponentOfText? rest
  (Decimal.mk (decimalValue (whole ++ fraction)) (exponent - fraction.length)).toDouble? negative

def intOfDouble? (d : Double) : Option Int :=
  d.toInt?.filter fun n => n.natAbs < Nat.pow 2 63

def coerceInt? : Json → Option Number
  | .num (.int n) => some (.int n)
  | .num (.float d) => (intOfDouble? d).map .int
  | .str s => (intOfText? (Unicode.trimBlanks s.toList)).map .int
  | _ => none

def coerceFloat? : Json → Option Number
  | .num n => some n
  | .str s => (doubleOfText? (Unicode.trimBlanks s.toList)).map .float
  | _ => none

namespace Scalar

def coerce? : Scalar → Json → Option Json
  | any, v => some v
  | bool, v => match v with
    | .bool b => some (.bool b)
    | _ => none
  | int, v => (coerceInt? v).map .num
  | float, v => (coerceFloat? v).map .num
  | str, v => match v with
    | .str s => some (.str s)
    | .num (.int n) => some (.str (String.ofList (intText n)))
    | _ => none
  | ipAddress, v => match v with
    | .str s => (IpAddress.ofText? s).map fun a => .str a.text
    | _ => none

end Scalar

abbrev Cleaned := Option Json × FieldErrors

namespace Param

/-- Appends the conditions that a value breaks, unless errors were found since `before`. -/
def check (t : Traits) (path : String) (before : FieldErrors) (result : Cleaned) : Cleaned :=
  match result with
  | (none, errors) => (none, errors)
  | (some v, errors) =>
    if errors.length = before.length then
      (some v, errors ++ (t.validators.filterMap fun c => c.violation? v).map
        fun violation => (Fault.violated violation).at path)
    else (some v, errors)

def cleanItems (clean : String → Json → FieldErrors → Cleaned) (path : String) :
    Nat → List Json → FieldErrors → List Json × FieldErrors
  | _, [], errors => ([], errors)
  | i, v :: vs, errors =>
    let (cleaned, errors) := clean (joinPath path (toString i)) v errors
    let (rest, errors) := cleanItems clean path (i + 1) vs errors
    (cleaned.toList ++ rest, errors)

def cleanOthers (attrs : List Param) (extensible : Bool) (path : String) (fields cleaned : Fields)
    (errors : FieldErrors) : Fields × FieldErrors :=
  let others := fields.filter fun f => !attrs.any fun a => a.name == f.1
  if extensible then (cleaned.insertAll others, errors)
  else (cleaned, errors ++ others.map fun f => Fault.unexpected.at (joinPath path f.1))

mutual

def clean : Param → String → Option Json → FieldErrors → Cleaned
  | scalar t type, path, value, errors =>
    match value with
    | none =>
      if t.required then (none, errors ++ [Fault.missing.at path]) else (t.default, errors)
    | some .null =>
      if t.nullable then (some .null, errors) else (none, errors ++ [Fault.null.at path])
    | some v =>
      match type.coerce? v with
      | some c => check t path errors (some c, errors)
      | none => (none, errors ++ [(Fault.notScalar type).at path])
  | dict t attrs extensible, path, value, errors =>
    match value with
    | none =>
      if t.required then (none, errors ++ [Fault.missing.at path])
      else match t.default with
        | some d => (some d, errors)
        | none =>
          let (cleaned, errors) := cleanAttrs attrs path [] [] errors
          (some (.obj cleaned), errors)
    | some .null =>
      if t.nullable then (some .null, errors) else (none, errors ++ [Fault.null.at path])
    | some (.obj fields) =>
      let (cleaned, found) := cleanAttrs attrs path fields [] errors
      let (cleaned, found) := cleanOthers attrs extensible path fields cleaned found
      check t path errors (some (.obj cleaned), found)
    | some _ => (none, errors ++ [Fault.notDict.at path])
  | list t items, path, value, errors =>
    match value with
    | none =>
      if t.required then (none, errors ++ [Fault.missing.at path]) else (t.default, errors)
    | some .null =>
      if t.nullable then (some .null, errors) else (none, errors ++ [Fault.null.at path])
    | some (.arr values) =>
      match items with
      | [] => check t path errors (some (.arr values), errors)
      | [item] =>
        let one (itemPath : String) (v : Json) (errors : FieldErrors) : Cleaned :=
          match clean item itemPath (some v) [] with
          | (cleaned, []) => (cleaned, errors)
          | (_, found) => (none, errors ++ found)
        let (cleaned, found) := cleanItems one path 0 values errors
        check t path errors (some (.arr cleaned), found)
      | items =>
        let one (itemPath : String) (v : Json) (errors : FieldErrors) : Cleaned :=
          match cleanFirst items itemPath v with
          | some cleaned => (some cleaned, errors)
          | none => (none, errors ++ [(Fault.noItemType (items.map Param.name)).at itemPath])
        let (cleaned, found) := cleanItems one path 0 values errors
        check t path errors (some (.arr cleaned), found)
    | some _ => (none, errors ++ [Fault.notList.at path])

def cleanAttrs : List Param → String → Fields → Fields → FieldErrors → Fields × FieldErrors
  | [], _, _, cleaned, errors => (cleaned, errors)
  | p :: ps, path, fields, cleaned, errors =>
    let (value, errors) := clean p (joinPath path p.name) (fields.get? p.name) errors
    let cleaned := match value with
      | some v => cleaned.insert p.name v
      | none => cleaned
    cleanAttrs ps path fields cleaned errors

/-- The item as cleaned by the first type that finds no error in it. -/
def cleanFirst : List Param → String → Json → Option Json
  | [], _, _ => none
  | p :: ps, path, v =>
    match clean p path (some v) [] with
    | (cleaned, []) => cleaned
    | _ => cleanFirst ps path v

end

end Param

abbrev Accepts := List Param

namespace Accepts

def cleanEach : List Param → List Json → FieldErrors → List Json × FieldErrors
  | [], _, errors => ([], errors)
  | p :: ps, args, errors =>
    let (value, errors) := p.clean p.name args.head? errors
    let (rest, errors) := cleanEach ps args.tail errors
    (Json.ofOption value :: rest, errors)

/-- The cleaned arguments of a call, one for each parameter, or all errors found. -/
def clean (params : Accepts) (args : List Json) : Except FieldErrors (List Json) :=
  let surplus :=
    if params.length < args.length then
      [(Fault.tooManyArguments params.length args.length).at "args"]
    else []
  match cleanEach params args surplus with
  | (cleaned, []) => .ok cleaned
  | (_, errors) => .error errors

end Accepts

end Switchboard
