import Switchboard.Json

namespace Switchboard

inductive EventType where
  | added | changed | removed
deriving DecidableEq

namespace EventType

def name : EventType → String
  | added => "ADDED"
  | changed => "CHANGED"
  | removed => "REMOVED"

def all : List EventType := [added, changed, removed]

end EventType

structure Event where
  type : EventType
  collection : String
  /-- The member that the event is about, if the collection has members. -/
  id : Option Json := none
  fields : Json

namespace Event

def toJson (e : Event) : Json :=
  let id := match e.id with
    | some id => [("id", id)]
    | none => []
  .ofFields ([("event_type", .str e.type.name), ("collection", .str e.collection),
    ("fields", e.fields)] ++ id)

end Event

end Switchboard
