import Switchboard.Json

namespace Switchboard

def segmentsOf : List Char → List (List Char)
  | [] => [[]]
  | c :: cs =>
    if c = '.' then [] :: segmentsOf cs
    else match segmentsOf cs with
      | [] => [[c]]
      | s :: ss => (c :: s) :: ss

def pathSegments (path : String) : List String := (segmentsOf path.toList).map String.ofList

/-- The position in a list that a segment gives, which may start with a plus sign. -/
def indexOfText? (segment : String) : Option Nat :=
  let ds := match segment.toList with
    | '+' :: rest => rest
    | cs => cs
  let n := ds.foldl (fun n c => n * 10 + (c.toNat - 48)) 0
  if ds.isEmpty || !ds.all Char.isDigit || Nat.pow 2 64 ≤ n then none else some n

namespace Json

def child? (v : Json) (segment : String) : Option Json :=
  match v with
  | obj fields => Fields.get? fields segment
  | arr items => (indexOfText? segment).bind fun i => items[i]?
  | _ => none

def descend? (v : Json) : List String → Option Json
  | [] => some v
  | s :: ss => (v.child? s).bind fun w => w.descend? ss

/-- The value at a path. A field with the whole path for a name comes first. -/
def atPath? (v : Json) (path : String) : Option Json :=
  (v.get? path).or (v.descend? (pathSegments path))

def atPath (v : Json) (path : String) : Json := (v.atPath? path).getD null

end Json

namespace Fields

/-- Sets the value at the end of some steps, making objects on the way. A path that runs into
another kind of value is left alone. -/
def insertAt (value : Json) : List String → Fields → Fields
  | [], fields => fields
  | [last], fields => fields.insert last value
  | s :: ss, fields =>
    match fields.get? s with
    | none => fields.insert s (.obj (insertAt value ss []))
    | some (.obj inner) => fields.insert s (.obj (insertAt value ss inner))
    | some _ => fields

end Fields

def selectFields (record : Json) (paths : List String) : Json :=
  .obj (paths.foldl (fun acc path =>
    match record.atPath? path with
    | some v => Fields.insertAt v (pathSegments path) acc
    | none => acc) [])

end Switchboard
