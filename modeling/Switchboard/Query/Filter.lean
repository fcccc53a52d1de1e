import Switchboard.Decode
import Switchboard.PatternReader
import Switchboard.Query.Compare

namespace Switchboard

inductive Operator where
  | eq | ne | gt | ge | lt | le
  | matching (condition : String → Bool)
  | inList | notInList
  | includes | notIncludes
  | startsWith | notStartsWith
  | endsWith | notEndsWith

inductive Filter where
  | compare (path : String) (op : Operator) (value : Json)
  | any (groups : List (List Filter))

inductive QueryError where
  | malformed (filter : Json)
  | patternNotString
  | badPattern (source cause : String)
  | needsList (op : String)
  | unknownOperator (op : String)
  | badOptions (cause : DecodeError)

namespace QueryError

def message : QueryError → String
  | malformed filter => "malformed filter " ++ filter.text
  | patternNotString => "operator ~ requires a string pattern"
  | badPattern source cause => "bad pattern " ++ quoted source ++ ": " ++ cause
  | needsList op => "operator " ++ op ++ " requires a list"
  | unknownOperator op => "unknown operator " ++ quoted op
  | badOptions cause => "bad query options: " ++ cause.message

end QueryError

namespace Operator

/-- The operator of a name, given the value that it will be used with. -/
def ofName [PatternReader] (name : String) (value : Json) : Except QueryError Operator :=
  match name with
  | "=" => .ok eq
  | "!=" => .ok ne
  | ">" => .ok gt
  | ">=" => .ok ge
  | "<" => .ok lt
  | "<=" => .ok le
  | "~" =>
    match value with
    | .str source =>
      match PatternReader.read source with
      | .ok condition => .ok (matching condition)
      | .error cause => .error (.badPattern source cause)
    | _ => .error .patternNotString
  | "in" =>
    match value with
    | .arr _ => .ok inList
    | _ => .error (.needsList name)
  | "nin" =>
    match value with
    | .arr _ => .ok notInList
    | _ => .error (.needsList name)
  | "rin" => .ok includes
  | "rnin" => .ok notIncludes
  | "^" => .ok startsWith
  | "!^" => .ok notStartsWith
  | "$" => .ok endsWith
  | "!$" => .ok notEndsWith
  | _ => .error (.unknownOperator name)

def isPrefix (field value : Json) : Bool :=
  match field, value with
  | .str f, .str v => v.toList.isPrefixOf f.toList
  | _, _ => false

def isSuffix (field value : Json) : Bool :=
  match field, value with
  | .str f, .str v => v.toList.isSuffixOf f.toList
  | _, _ => false

def holds (op : Operator) (field value : Json) : Bool :=
  match op with
  | eq => field.equals value
  | ne => !field.equals value
  | gt => field.compareSame? value == some .gt
  | ge => field.compareSame? value == some .gt || field.compareSame? value == some .eq
  | lt => field.compareSame? value == some .lt
  | le => field.compareSame? value == some .lt || field.compareSame? value == some .eq
  | matching condition =>
    match field with
    | .str s => condition s
    | _ => false
  | inList => value.includes field
  | notInList => !value.includes field
  | includes => field.includes value
  | notIncludes => !field.includes value
  | startsWith => isPrefix field value
  | notStartsWith => !isPrefix field value
  | endsWith => isSuffix field value
  | notEndsWith => !isSuffix field value

end Operator

namespace Filter

mutual

/-- Reads a filter: `[path, operator, value]` or `["OR", groups]`. -/
def ofJson [PatternReader] : Json → Except QueryError Filter
  | .arr [.str word, .arr groups] =>
    if word = "OR" then (groupsOfJson groups).map any
    else .error (.malformed (.arr [.str word, .arr groups]))
  | .arr [.str path, .str op, value] =>
    (Operator.ofName op value).map fun op => compare path op value
  | v => .error (.malformed v)

/-- Reads the groups of an alternative: a list that starts with a list is a group, and anything
else a filter by itself. -/
def groupsOfJson [PatternReader] : List Json → Except QueryError (List (List Filter))
  | [] => .ok []
  | .arr (.arr first :: rest) :: groups => do
    let filter ← ofJson (.arr first)
    let filters ← listOfJson rest
    return (filter :: filters) :: (← groupsOfJson groups)
  | v :: groups => do
    let filter ← ofJson v
    return [filter] :: (← groupsOfJson groups)

def listOfJson [PatternReader] : List Json → Except QueryError (List Filter)
  | [] => .ok []
  | v :: vs => do
    let filter ← ofJson v
    return filter :: (← listOfJson vs)

end

mutual

/-- Whether a filter holds of a record. A path that leads nowhere leads to null. -/
def holds : Filter → Json → Bool
  | compare path op value, record => op.holds (record.atPath path) value
  | any groups, record => holdsSome groups record

def holdsSome : List (List Filter) → Json → Bool
  | [], _ => false
  | group :: groups, record => holdsAll group record || holdsSome groups record

def holdsAll : List Filter → Json → Bool
  | [], _ => true
  | filter :: filters, record => holds filter record && holdsAll filters record

end

end Filter

end Switchboard
