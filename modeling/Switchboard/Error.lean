import Switchboard.Schema.FieldError

namespace Switchboard

inductive ErrorKind where
  | notFound | validation | call | lockTimeout | aborted
deriving DecidableEq

namespace ErrorKind

def name : ErrorKind → String
  | notFound => "NOT_FOUND"
  | validation => "VALIDATION"
  | call => "CALL"
  | lockTimeout => "LOCK_TIMEOUT"
  | aborted => "ABORTED"

def code : ErrorKind → Int
  | notFound => 2
  | validation => 22
  | call => 14
  | lockTimeout => 110
  | aborted => 125

end ErrorKind

inductive CallError where
  | methodNotFound (name : String)
  | eventSourceNotFound (name : String)
  | jobNotFound (id : Nat)
  | notFound (text : String)
  | matchNotFound
  | tooManyMatches (count : Nat)
  | validation (errors : FieldErrors)
  | invalidFilter (text : String)
  | failed (text : String)
  | call (method text : String)
  | lockTimeout (lock : String)
  | aborted
  | notAbortable (id : Nat)
  | waitTimeout (id : Nat)
  | jobManagerUnavailable
deriving DecidableEq

namespace CallError

def kind : CallError → ErrorKind
  | methodNotFound _ | eventSourceNotFound _ | jobNotFound _ | notFound _ | matchNotFound
  | tooManyMatches _ => .notFound
  | validation _ | invalidFilter _ => .validation
  | failed _ | call _ _ | notAbortable _ | waitTimeout _ | jobManagerUnavailable => .call
  | lockTimeout _ => .lockTimeout
  | aborted => .aborted

def message : CallError → String
  | methodNotFound name => "Method " ++ name ++ " not found"
  | eventSourceNotFound name => "Event source " ++ name ++ " not found"
  | jobNotFound id => "Job " ++ toString id ++ " not found"
  | notFound text => text
  | matchNotFound => "No record matched the query"
  | tooManyMatches count => "Expected exactly one matching record, got " ++ toString count
  | validation errors => "Validation failed: " ++ errors.text
  | invalidFilter text => "Invalid query filter: " ++ text
  | failed text => text
  | call method text => method ++ ": " ++ text
  | lockTimeout lock => "Timed out waiting for lock " ++ lock
  | aborted => "Job was aborted"
  | notAbortable id => "Job " ++ toString id ++ " is running and is not abortable"
  | waitTimeout id => "Timed out waiting for job " ++ toString id
  | jobManagerUnavailable => "Job manager has shut down"

def name : CallError → String
  | methodNotFound _ => "MethodNotFound"
  | eventSourceNotFound _ => "EventSourceNotFound"
  | jobNotFound _ => "JobNotFound"
  | notFound _ => "NotFound"
  | matchNotFound => "MatchNotFound"
  | tooManyMatches _ => "TooManyMatches"
  | validation _ => "Validation"
  | invalidFilter _ => "InvalidFilter"
  | failed _ => "Failed"
  | call _ _ => "Call"
  | lockTimeout _ => "LockTimeout"
  | aborted => "Aborted"
  | notAbortable _ => "NotAbortable"
  | waitTimeout _ => "WaitTimeout"
  | jobManagerUnavailable => "JobManagerUnavailable"

def errorsField : CallError → List (String × Json)
  | validation errors => [("errors", errors.toJson)]
  | _ => []

def toJson (e : CallError) : Json :=
  .ofFields ([("error", .str e.name), ("kind", .str e.kind.name), ("message", .str e.message)] ++
    e.errorsField)

/-- The error as a finished job keeps it. -/
def toJobJson (e : CallError) : Json :=
  .ofFields ([("kind", .str e.kind.name), ("message", .str e.message)] ++ e.errorsField)

def toRpcJson (e : CallError) : Json :=
  .ofFields [("code", .int e.kind.code), ("message", .str e.message),
    ("data", .ofFields (("kind", .str e.kind.name) :: e.errorsField))]

end CallError

end Switchboard
