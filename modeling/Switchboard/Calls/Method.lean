import Switchboard.Calls.Routine
import Switchboard.JsonText

namespace Switchboard

/-- How a method runs as a job. The lock and the description are found from the arguments as the
caller gave them. -/
structure JobOptions where
  lock : List Json → Option String := fun _ => none
  description : List Json → Option String := fun _ => none
  lockQueueSize : Option Nat := none
  lockTimeout : Option Nat := none
  abortable : Bool := false
  transient : Bool := false

namespace JobOptions

def lockOfArgument (start : String) (raw : List Json) : Option String :=
  match raw.head? with
  | some (.str s) => some (start ++ s)
  | _ => none

def describeArguments (start : String) (raw : List Json) : Option String :=
  some (start ++ (Json.arr raw).text)

/-- The job of a call. Where the method sets no limit to the wait for its lock, there may be a
general one. -/
def newJob {β : Type} (o : JobOptions) (method : String) (raw args : List Json) (blocking : Bool)
    (defaultLockTimeout : Option Nat) (body : β) : NewJob β where
  method
  arguments := args
  lock := o.lock raw
  description := o.description raw
  lockQueueSize := o.lockQueueSize
  lockTimeout := o.lockTimeout.or defaultLockTimeout
  abortable := o.abortable
  transient := o.transient
  blocking
  body

end JobOptions

structure Method where
  name : String
  kind : MethodKind := .plain
  accepts : List Param := []
  blocking : Bool := false
  body : CallContext → List Json → Handler
  job : Option JobOptions := none
  /-- A hidden method can be called, but clients are not told of it. -/
  hidden : Bool := false
  description : Option String := none

namespace Method

def info (m : Method) : MethodInfo where
  name := m.name
  kind := m.kind
  accepts := m.accepts.map Param.describe
  job := m.job.isSome
  abortable := m.job.any (·.abortable)
  blocking := m.blocking
  description := m.description

end Method

end Switchboard
