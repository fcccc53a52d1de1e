import Switchboard.Error
import Switchboard.Jobs.State

namespace Switchboard

structure JobProgress where
  percent : Nat := 0
  description : Option String := none
deriving DecidableEq

namespace JobProgress

/-- Progress after a report. It never goes back, and a report without a description keeps the one
that is there. -/
def report (p : JobProgress) (percent : Nat) (description : Option String) : JobProgress where
  percent := max p.percent (min percent 100)
  description := description.or p.description

def toJson (p : JobProgress) : Json :=
  .ofFields [("percent", .nat p.percent), ("description", .ofString? p.description)]

end JobProgress

structure JobSnapshot where
  id : Nat
  method : String
  arguments : List Json
  lock : Option String
  description : Option String
  abortable : Bool
  /-- A transient job is forgotten when it ends, and no events tell of it. -/
  transient : Bool
  state : JobState := .waiting
  progress : JobProgress := {}
  result : Option Json := none
  error : Option CallError := none
  timeCreated : Nat
  timeStarted : Option Nat := none
  timeFinished : Option Nat := none

namespace JobSnapshot

def toJson (s : JobSnapshot) : Json :=
  .ofFields [("id", .nat s.id), ("method", .str s.method), ("arguments", .arr s.arguments),
    ("lock", .ofString? s.lock), ("description", .ofString? s.description),
    ("abortable", .bool s.abortable), ("transient", .bool s.transient),
    ("state", .str s.state.name), ("progress", s.progress.toJson), ("result", .ofOption s.result),
    ("error", .ofOption (s.error.map CallError.toJobJson)), ("time_created", .nat s.timeCreated),
    ("time_started", .ofNat? s.timeStarted), ("time_finished", .ofNat? s.timeFinished)]

def outcome (s : JobSnapshot) : Except CallError Json :=
  match s.state with
  | .success => .ok (s.result.getD .null)
  | .failed | .aborted => .error (s.error.getD .aborted)
  | .waiting | .running => .error (.failed s!"Job {s.id} has not finished")

end JobSnapshot

end Switchboard
