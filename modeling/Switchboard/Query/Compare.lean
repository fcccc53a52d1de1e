import Switchboard.Query.Path

namespace Switchboard.Json

/-- Equality in queries: numbers are compared by their value. -/
def equals : Json → Json → Bool
  | num a, num b => a.units == b.units
  | a, b => a.same b

def occursIn (needle : List Char) : List Char → Bool
  | [] => needle.isEmpty
  | c :: cs => needle.isPrefixOf (c :: cs) || occursIn needle cs

def includes (haystack needle : Json) : Bool :=
  match haystack with
  | arr items => items.any fun item => item.equals needle
  | str s => match needle with
    | str t => occursIn t.toList s.toList
    | _ => false
  | _ => false

def compareSame? : Json → Json → Option Ordering
  | num a, num b => some (compare a.units b.units)
  | str a, str b => some (compare a b)
  | bool a, bool b => some (compare a b)
  | _, _ => none

/-- The order of all values: by type, and within an ordered type by value. -/
def order (a b : Json) : Ordering :=
  (compare a.type.rank b.type.rank).then ((compareSame? a b).getD .eq)

end Switchboard.Json

namespace Switchboard

structure SortKey where
  path : String
  descending : Bool
  nulls : Option Ordering

def afterPrefix? (start : List Char) (cs : List Char) : Option (List Char) :=
  if start.isPrefixOf cs then some (cs.drop start.length) else none

namespace SortKey

def ofText (key : String) : SortKey :=
  let cs := key.toList
  let (rest, nulls) :=
    match afterPrefix? "nulls_first:".toList cs with
    | some rest => (rest, some .lt)
    | none =>
      match afterPrefix? "nulls_last:".toList cs with
      | some rest => (rest, some .gt)
      | none => (cs, none)
  match rest with
  | '-' :: path => ⟨String.ofList path, true, nulls⟩
  | path => ⟨String.ofList path, false, nulls⟩

def compareValues (key : SortKey) (a b : Json) : Ordering :=
  let plain := if key.descending then (a.order b).swap else a.order b
  match key.nulls with
  | none => plain
  | some nulls =>
    if a.isNull && !b.isNull then nulls
    else if !a.isNull && b.isNull then nulls.swap
    else plain

def compare (key : SortKey) (a b : Json) : Ordering :=
  key.compareValues (a.atPath key.path) (b.atPath key.path)

end SortKey

/-- The order of two records under several keys, the first of which decides unless it finds them
equal. -/
def compareBy (keys : List SortKey) (a b : Json) : Ordering :=
  keys.foldr (fun key rest => (key.compare a b).then rest) .eq

/-- Records in the order of some keys; equal records stay in their order. -/
def sortRecords (keys : List SortKey) (records : List Json) : List Json :=
  records.mergeSort fun a b => compareBy keys a b != .gt

end Switchboard
