import Switchboard.Calls.Registry
import Switchboard.JsonText
import Switchboard.Script.Run

namespace Switchboard

structure Exchange where
  settings : CoreSettings := {}
  registry : Registry := {}

namespace Exchange

def summaryLength : Nat := 256

def summary (args : List Json) : String :=
  let full := (Json.arr args).text
  if full.length ≤ summaryLength then full
  else String.ofList (full.toList.take summaryLength) ++ "..."

/-- Puts the name of a method to its failure, and leaves a record of it. Other errors are passed
on. -/
def attribute? (method : String) (raw : List Json) :
    Except CallError Json → Routine (Except CallError Json)
  | .ok v => return .ok v
  | .error (.failed text) => do
    Routine.log .error s!"Method {method} failed: {text}; arguments: {summary raw}"
    return .error (.call method text)
  | .error e => do
    Routine.log .debug s!"Method {method} returned {e.message}"
    return .error e

/-- Runs the body of a method. A panic is caught on a thread, or while the body is waited for; the
call that begins it is not looked after. -/
def execute (m : Method) (args : List Json) (context : CallContext) :
    Routine (Except CallError Json) := do
  if m.blocking then
    let task : Nat ← Routine.ask (.spawn (.thread m.name args context))
    let outcome : Outcome ← Routine.ask (.join task)
    return outcome.joined task
  else
    let handler := m.body context args
    handler.prepare
    return (Outcome.ofAttempt (← handler.run.attempt)).caught

def invoke (m : Method) (args : List Json) (context : CallContext) :
    Routine (Except CallError Json) :=
  match Accepts.clean m.accepts args with
  | .error errors => return .error (.validation errors)
  | .ok cleaned => do
    Routine.log .debug s!"Calling {m.name}"
    attribute? m.name args (← execute m cleaned context)

def defaultLockTimeout (x : Exchange) : Option Nat :=
  x.settings.defaultLockTimeout.map (· * 1000)

def submit (x : Exchange) (m : Method) (o : JobOptions) (args : List Json) :
    Routine (Except CallError Nat) :=
  match Accepts.clean m.accepts args with
  | .error errors => return .error (.validation errors)
  | .ok cleaned =>
    Routine.ask (.ask (.submit (o.newJob m.name args cleaned m.blocking x.defaultLockTimeout
      (.method m.name cleaned args))))

def call (x : Exchange) (name : String) (args : List Json) : Routine (Except CallError Json) :=
  match x.registry.method? name with
  | none => return .error (.methodNotFound name)
  | some m =>
    match m.job with
    | none => do
      let token : Token ← Routine.ask (.newToken none)
      invoke m args { token }
    | some o => return (← x.submit m o args).map .nat

def callJob (x : Exchange) (name : String) (args : List Json) : Routine (Except CallError Json) :=
  match x.registry.method? name with
  | none => return .error (.methodNotFound name)
  | some m =>
    match m.job with
    | none => return .error (.failed s!"Method {name} is not a job")
    | some o => return (← x.submit m o args).map .nat

def jobResult (id : Nat) : Routine (Except CallError Json) := do
  let ending : Except CallError JobSnapshot ← Routine.ask (.awaitJob id none)
  return ending.bind JobSnapshot.outcome

/-- Calls a method and waits for its result, also if it runs as a job. Until then the job is aborted
if the caller is cancelled. -/
def callWait (x : Exchange) (name : String) (args : List Json) (caller : Option Token) :
    Routine (Except CallError Json) :=
  match x.registry.method? name with
  | none => return .error (.methodNotFound name)
  | some m =>
    match m.job with
    | none => do
      let token : Token ← Routine.ask (.newToken caller)
      invoke m args { token }
    | some o => do
      match ← x.submit m o args with
      | .error e => return .error e
      | .ok id =>
        match caller with
        | none => jobResult id
        | some caller =>
          let done : Token ← Routine.ask (.newToken none)
          let _ : Nat ← Routine.ask (.spawn (.guard id caller done))
          let result ← jobResult id
          Routine.ask (.cancel done)
          return result

def hookFailure? : Outcome → Option String
  | .returned _ => none
  | .failed e => some e.message
  | .panicked p => some s!"panicked: {Outcome.panicText p}"

/-- Runs handlers one after another. One that fails does not keep the others from running. -/
def runHooks (event : String) (payload : Json) : List Hook → FireReport → Routine FireReport
  | [], report => return report
  | hook :: rest, report => do
    let handler := hook.run payload
    handler.prepare
    match hookFailure? (Outcome.ofAttempt (← handler.run.attempt)) with
    | none => runHooks event payload rest { report with ran := report.ran + 1 }
    | some failure =>
      Routine.log .error s!"Hook {hook.name} for {event} failed: {failure}"
      runHooks event payload rest ⟨report.ran + 1, report.failed + 1⟩

def fire (x : Exchange) (event : String) (payload : Json) : Routine FireReport := do
  let report ← runHooks event payload (x.registry.handlers event) {}
  Routine.log .debug
    s!"Fired {event}: FireReport \x7b ran: {report.ran}, failed: {report.failed} \x7d"
  return report

def waitJob (id : Nat) (timeout : Option Nat) : Routine (Except CallError JobSnapshot) := do
  let found : Except CallError Bool ← Routine.ask (.ask (.watch id))
  match found with
  | .error e => return .error e
  | .ok false => return .error (.jobNotFound id)
  | .ok true =>
    let now : Nat ← Routine.ask .now
    Routine.ask (.awaitJob id (timeout.map (now + ·)))

def abortJob (id : Nat) : Routine (Except CallError Json) := do
  let result : Except CallError (Except CallError Unit) ← Routine.ask (.ask (.abort id))
  return match result with
    | .ok (.ok ()) => .ok .null
    | .ok (.error e) | .error e => .error e

def submitScript (method : String) (o : JobOptions) (raw args : List Json) (body : Script)
    (defaultLockTimeout : Option Nat) : Routine (Except CallError Json) := do
  let submitted : Except CallError Nat ← Routine.ask (.ask (.submit
    (o.newJob method raw args false defaultLockTimeout (.script body args))))
  return submitted.map .nat

def outsideError : CallError :=
  .failed ("No runtime to run the call on: there is no reactor running, " ++
    "must be called from the context of a Tokio 1.x runtime")

/-- The result of the body of a job. Nobody catches the panic of a script. -/
def jobOutcome (x : Exchange) (id : Nat) : JobBody → Routine (Except CallError Json)
  | .method name args raw =>
    match x.registry.method? name with
    | none => return .error (.methodNotFound name)
    | some m => do attribute? name raw (← execute m args ⟨.job id, some id⟩)
  | .script body args => do
    match ← body.run (.job id) args with
    | .panicked p => Routine.panic p
    | outcome => return outcome.caught

def runJob (x : Exchange) (id : Nat) (body : JobBody) : Routine Outcome := do
  let result ← x.jobOutcome id body
  Routine.ask (.report (.finished id result))
  return .returned .null

def reportDropped (id : Nat) : Routine Outcome := do
  Routine.ask (.report (.finished id (.error .aborted)))
  return .returned .null

def runLockTimer (id ms : Nat) : Routine Outcome := do
  Routine.sleep ms
  Routine.ask (.report (.lockTimedOut id))
  return .returned .null

def runGuard (job : Nat) (caller done : Token) : Routine Outcome := do
  let cancelled : Bool ← Routine.ask (.awaitEither caller done)
  if cancelled then
    let _ ← abortJob job
  return .returned .null

def playItem (p : Playlist) : Option PlaylistItem → Routine Round
  | some (.emit v) => return .payload v
  | some .args => return .payload p.args
  | some (.call method args) => do
    let result : Except PanicPayload (Except CallError Json) ← Routine.ask (.launch method args)
    return match result with
      | .ok (.ok v) => .payload v
      | .ok (.error e) => .failed e
      | .error p => .panicked p
  | some (.fail text) => return .failed (.failed text)
  | some .panic => return .panicked (.text "source")
  | some .silence | none => return .nothing

def playRound : EventSource → Routine (Round × EventSource)
  | .realtime r => do
    let texts : Reporting.Sample ← Routine.ask .sample
    let (sampled, r) := r.sample texts
    let round : Round := match sampled with
      | .fields v => .payload v
      | .failed e => .failed e
      | .overflowed o => .panicked (.text o.message)
    return (round, .realtime r)
  | .playlist p => do
    Routine.ask (.note (.arr [.str "iterate", .nat p.position]))
    let round ← playItem p p.items[p.position]?
    return (round, .playlist { p with position := p.position + 1 })

def sourceStopped (name : String) : Routine Outcome := do
  Routine.log .debug s!"Event source {name} stopped"
  return .returned .null

def runRounds (subscription : Nat) (name : String) (source : EventSource) : Routine Outcome := do
  let begun : Bool ← Routine.ask (.beginRound subscription)
  if begun then
    let (round, source) ← playRound source
    Routine.ask (.concludeRound subscription round)
    match round with
    | .panicked p => return .panicked p
    | .failed e =>
      Routine.log .error s!"Event source {name} failed: {e.message}"
      sourceStopped name
    | .payload _ | .nothing =>
      let sent : Bool ← Routine.ask (.push subscription)
      if sent then
        let now : Nat ← Routine.ask .now
        let rested : Bool ← Routine.ask (.rest subscription (now + source.interval))
        if rested then Routine.goOnAs (.rounds subscription name source)
        else sourceStopped name
      else sourceStopped name
  else sourceStopped name

def startRounds (subscription : Nat) (name : String) (source : EventSource) : Routine Outcome := do
  Routine.log .debug s!"Event source {name} started"
  runRounds subscription name source

def runForward (subscription outlet : Nat) : Routine Outcome := do
  let more : Bool ← Routine.ask (.forward subscription outlet)
  if more then Routine.goOnAs (.forward subscription outlet) else return .returned .null

def work (x : Exchange) : Work → Routine Outcome
  | .thread method args context =>
    match x.registry.method? method with
    | none => return .failed (.methodNotFound method)
    | some m => do
      let handler := m.body context args
      handler.prepare
      handler.run
  | .guard job caller done => runGuard job caller done
  | .rounds subscription name source => runRounds subscription name source
  | .forward subscription outlet => runForward subscription outlet

end Exchange

end Switchboard
