import Switchboard.Error

namespace Switchboard.CallError

def ofSpec? (v : Json) : Option CallError :=
  let text (key : String) : String := match v.get? key with
    | some (.str s) => s
    | _ => ""
  let n : Nat := ((v.get? "n").bind Json.asWord?).getD 0
  match text "type" with
  | "MethodNotFound" => some (.methodNotFound (text "text"))
  | "EventSourceNotFound" => some (.eventSourceNotFound (text "text"))
  | "JobNotFound" => some (.jobNotFound n)
  | "NotFound" => some (.notFound (text "text"))
  | "MatchNotFound" => some .matchNotFound
  | "TooManyMatches" => some (.tooManyMatches n)
  | "Validation" =>
    (FieldErrors.ofJson? ((v.get? "errors").getD (.arr []))).map .validation
  | "InvalidFilter" => some (.invalidFilter (text "text"))
  | "Failed" => some (.failed (text "text"))
  | "Call" => some (.call (text "method") (text "text"))
  | "LockTimeout" => some (.lockTimeout (text "text"))
  | "Aborted" => some .aborted
  | "NotAbortable" => some (.notAbortable n)
  | "WaitTimeout" => some (.waitTimeout n)
  | "JobManagerUnavailable" => some .jobManagerUnavailable
  | _ => none

end Switchboard.CallError
