import Switchboard.Error

namespace Switchboard

structure Shelf where
  records : List Json
  nextKey : Nat

namespace Shelf

def ofRecords (records : List Json) : Shelf := ⟨records, records.length + 1⟩

def hasKey (primaryKey : String) (id record : Json) : Bool :=
  match record.get? primaryKey with
  | some v => v.same id
  | none => false

def create (s : Shelf) (primaryKey : String) (data : Json) : Json × Shelf :=
  let record : Json := match data with
    | .obj fields =>
      if Fields.contains fields primaryKey then data
      else .obj (Fields.insert primaryKey (.nat s.nextKey) fields)
    | _ => data
  (record, ⟨s.records ++ [record], s.nextKey + 1⟩)

def extend (record data : Json) : Json :=
  match record, data with
  | .obj fields, .obj more => .obj (Fields.insertAll fields more)
  | _, _ => record

/-- Extends the first record that has a key. Returns it as it is then. -/
def update? (s : Shelf) (primaryKey : String) (id data : Json) : Option (Json × Shelf) :=
  match s.records.span fun r => !hasKey primaryKey id r with
  | (_, []) => none
  | (before, record :: after) =>
    let record := extend record data
    some (record, { s with records := before ++ record :: after })

/-- Removes every record that has a key, if there is one. -/
def delete? (s : Shelf) (primaryKey : String) (id : Json) : Option Shelf :=
  if s.records.any (hasKey primaryKey id) then
    some { s with records := s.records.filter fun r => !hasKey primaryKey id r }
  else none

end Shelf

end Switchboard
