import Switchboard.Calls.Method
import Switchboard.ErrorSpec

namespace Switchboard

inductive ScriptRole where
  | method (context : CallContext)
  | job (id : Nat)
  | hook

namespace ScriptRole

def jobId? : ScriptRole → Option Nat
  | method context => context.job
  | job id => some id
  | hook => none

def token? : ScriptRole → Option Token
  | method context => some context.token
  | job id => some (.job id)
  | hook => none

def caller? : ScriptRole → Option Token
  | method context => some context.token
  | job _ | hook => none

end ScriptRole

namespace Script

inductive Turn where
  | goOn (last : Json)
  | stop (outcome : Outcome)

def notJob : Turn := .stop (.failed (.failed "not a job"))

def argumentsOf : Json → List Json
  | .arr args => args
  | _ => []

def textOf : Json → String
  | .str s => s
  | _ => ""

def errorOf (v : Json) : CallError := (CallError.ofSpec? v).getD (.failed "unknown error")

def ofResult : Except CallError Json → Turn
  | .ok v => .goOn v
  | .error e => .stop (.failed e)

/-- What comes of a call. A panic that the callee has let through is the panic of the caller. -/
def ofCall {α : Type} (turn : α → Turn) : Except PanicPayload α → Turn
  | .ok a => turn a
  | .error p => .stop (.panicked p)

def step (role : ScriptRole) (s : Scope) : Statement → Routine Turn
  | .yield v => return .stop (.returned (s.resolve v))
  | .set v => return .goOn (s.resolve v)
  | .fail text => return .stop (.failed (.failed text))
  | .raise error => return .stop (.failed (errorOf (s.resolve error)))
  | .failUnless a b text =>
    return if (s.resolve a).same (s.resolve b) then .goOn s.last
      else .stop (.failed (.failed text))
  | .panic payload => return .stop (.panicked payload)
  | .gate name => do
    Routine.ask (.gate name)
    return .goOn s.last
  | .sleep ms => do
    Routine.sleep ms
    return .goOn s.last
  | .progress percent description =>
    match role.jobId? with
    | none => return notJob
    | some id => do
      Routine.ask (.report (.progressed id percent description))
      return .goOn s.last
  | .note v => do
    Routine.ask (.note (s.resolve v))
    return .goOn s.last
  | .job =>
    match role.jobId? with
    | none => return notJob
    | some id => return .goOn (.nat id)
  | .isCancelled =>
    match role.token? with
    | none => return notJob
    | some token => do
      let cancelled : Bool ← Routine.ask (.isCancelled token)
      return .goOn (.bool cancelled)
  | .checkCancelled =>
    match role.jobId? with
    | none => return notJob
    | some id => do
      let cancelled : Bool ← Routine.ask (.isCancelled (.job id))
      return if cancelled then .stop (.failed .aborted) else .goOn s.last
  | .awaitCancel =>
    match role.jobId? with
    | none => return notJob
    | some id => do
      Routine.ask (.awaitCancel (.job id))
      return .goOn s.last
  | .call method args => do
    let result : Except PanicPayload (Except CallError Json) ←
      Routine.ask (.call (textOf (s.resolve method)) (argumentsOf (s.resolve args)) role.caller?)
    return ofCall ofResult result
  | .tryCall method args => do
    let result : Except PanicPayload (Except CallError Json) ←
      Routine.ask (.call (textOf (s.resolve method)) (argumentsOf (s.resolve args)) role.caller?)
    return ofCall (fun r => .goOn (match r with
      | .ok v => v
      | .error e => e.toJson)) result
  | .launch method args => do
    let result : Except PanicPayload (Except CallError Json) ←
      Routine.ask (.launch (textOf (s.resolve method)) (argumentsOf (s.resolve args)))
    return ofCall ofResult result
  | .abort id => do
    let result : Except CallError (Except CallError Unit) ←
      Routine.ask (.ask (.abort (((s.resolve id).asWord?).getD 0)))
    return match result with
      | .ok (.ok ()) => .goOn s.last
      | .ok (.error e) | .error e => .stop (.failed e)
  | .fire event payload => do
    let report : Except PanicPayload FireReport ←
      Routine.ask (.fire (textOf (s.resolve event)) (s.resolve payload))
    return ofCall (fun r => .goOn r.toJson) report

/-- Does the statements in turn. A script that does not say what it returns returns its last
value. -/
def runFrom (role : ScriptRole) (args : List Json) : Script → Json → Routine Outcome
  | [], last => return .returned last
  | statement :: rest, last => do
    match ← step role { args, last, job := role.jobId? } statement with
    | .goOn last => runFrom role args rest last
    | .stop outcome => return outcome

def run (s : Script) (role : ScriptRole) (args : List Json) : Routine Outcome :=
  runFrom role args s .null

end Script

end Switchboard
