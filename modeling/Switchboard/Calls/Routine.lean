import Switchboard.Crud.Shelf
import Switchboard.Events.Source
import Switchboard.Jobs.Table
import Switchboard.Script.Basic

namespace Switchboard

/-- What a cancellation is addressed to. Cancelling a token cancels all that were made from it. -/
inductive Token where
  | job (id : Nat)
  | root (n : Nat)
  | child (n : Nat) (parent : Token)
deriving DecidableEq

namespace Token

def isCancelled (fired : List Token) : Token → Bool
  | child n parent => fired.contains (child n parent) || parent.isCancelled fired
  | token => fired.contains token

end Token

structure CallContext where
  token : Token
  job : Option Nat := none
deriving DecidableEq

inductive Outcome where
  | returned (v : Json)
  | failed (e : CallError)
  | panicked (p : PanicPayload)

namespace Outcome

def ofResult : Except CallError Json → Outcome
  | .ok v => returned v
  | .error e => failed e

def panicText : PanicPayload → String
  | .text s => s
  | .other => "unknown panic"

def caught : Outcome → Except CallError Json
  | returned v => .ok v
  | failed e => .error e
  | panicked p => .error (.failed (panicText p))

def taskPanicText (task : Nat) : PanicPayload → String
  | .text s => s!"task {task} panicked with message {quoted s}"
  | .other => s!"task {task} panicked"

def joined (task : Nat) : Outcome → Except CallError Json
  | returned v => .ok v
  | failed e => .error e
  | panicked p => .error (.failed (taskPanicText task p))

end Outcome

structure FireReport where
  ran : Nat := 0
  failed : Nat := 0
deriving DecidableEq

namespace FireReport

def toJson (r : FireReport) : Json := .ofFields [("ran", .nat r.ran), ("failed", .nat r.failed)]

end FireReport

inductive MethodKind where
  | plain | query | getInstance | create | update | delete
deriving DecidableEq

namespace MethodKind

def name : MethodKind → String
  | plain => "plain"
  | query => "crud_query"
  | getInstance => "crud_get_instance"
  | create => "crud_create"
  | update => "crud_update"
  | delete => "crud_delete"

end MethodKind

structure MethodInfo where
  name : String
  kind : MethodKind
  accepts : List Json
  job : Bool
  abortable : Bool
  blocking : Bool
  description : Option String

namespace MethodInfo

def fields (i : MethodInfo) : List (String × Json) :=
  [("kind", .str i.kind.name), ("accepts", .arr i.accepts), ("job", .bool i.job),
    ("abortable", .bool i.abortable), ("blocking", .bool i.blocking),
    ("description", .ofString? i.description)]

def toJson (i : MethodInfo) : Json := .ofFields (("name", .str i.name) :: i.fields)

end MethodInfo

/-- What a job does: a method, given its cleaned arguments and those it was called with, or a
script of its own. -/
inductive JobBody where
  | method (name : String) (args raw : List Json)
  | script (body : Script) (args : List Json)

inductive JobRequest where
  | submit (job : NewJob JobBody)
  | abort (id : Nat)
  | get (id : Nat)
  | watch (id : Nat)
  | list
  | subscribe
  | shutdown

namespace JobRequest

def Reply : JobRequest → Type
  | submit _ => Nat
  | abort _ => Except CallError Unit
  | get _ => Option JobSnapshot
  | watch _ => Bool
  | list => List JobSnapshot
  | subscribe => Nat
  | shutdown => Nat

end JobRequest

inductive Work where
  | thread (method : String) (args : List Json) (context : CallContext)
  /-- Aborts a job when its caller is cancelled, until the call is done. -/
  | guard (job : Nat) (caller done : Token)
  | rounds (subscription : Nat) (name : String) (source : EventSource)
  | forward (subscription outlet : Nat)

inductive Action where
  | log (record : LogRecord)
  | note (v : Json)
  | now
  | sleepUntil (time : Nat)
  | gate (name : String)
  | newToken (parent : Option Token)
  | cancel (token : Token)
  | isCancelled (token : Token)
  | awaitCancel (token : Token)
  | awaitEither (first second : Token)
  | call (method : String) (args : List Json) (caller : Option Token)
  | launch (method : String) (args : List Json)
  | fire (event : String) (payload : Json)
  | ask (request : JobRequest)
  | report (report : JobReport)
  | awaitJob (id : Nat) (deadline : Option Nat)
  | spawn (work : Work)
  | join (task : Nat)
  | become (work : Work)
  | readShelf (shelf : Nat)
  | writeShelf (shelf : Nat) (s : Shelf)
  | methods
  | sources
  | sample
  /-- Begins a round of a subscription, unless it has to stop. -/
  | beginRound (subscription : Nat)
  | concludeRound (subscription : Nat) (round : Round)
  /-- Queues an event. Says whether the subscription goes on. -/
  | push (subscription : Nat)
  | rest (subscription time : Nat)
  | forward (subscription outlet : Nat)
  | panic (payload : PanicPayload)

namespace Action

def Reply : Action → Type
  | log _ | note _ | sleepUntil _ | gate _ | cancel _ | awaitCancel _ | report _ | writeShelf _ _
  | concludeRound _ _ => Unit
  | now | spawn _ => Nat
  | newToken _ => Token
  | isCancelled _ | awaitEither _ _ | beginRound _ | push _ | rest _ _ | forward _ _ => Bool
  | call _ _ _ | launch _ _ => Except PanicPayload (Except CallError Json)
  | fire _ _ => Except PanicPayload FireReport
  | ask request => Except CallError request.Reply
  | awaitJob _ _ => Except CallError JobSnapshot
  | join _ => Outcome
  | become _ | panic _ => Empty
  | readShelf _ => Shelf
  | methods => List MethodInfo
  | sources => List (String × Json)
  | sample => Reporting.Sample

end Action

inductive Routine (α : Type) where
  | done (a : α)
  | act (action : Action) (next : action.Reply → Routine α)

namespace Routine

variable {α γ : Type}

def bind : Routine α → (α → Routine γ) → Routine γ
  | done a, f => f a
  | act action next, f => act action fun r => (next r).bind f

instance : Monad Routine where
  pure := done
  bind := bind

def ask (action : Action) : Routine action.Reply := act action done

/-- Goes on as other work, never to return. -/
def goOnAs (work : Work) : Routine α := act (.become work) (nomatch ·)

def panic (payload : PanicPayload) : Routine α := act (.panic payload) (nomatch ·)

def attempt : Routine α → Routine (Except PanicPayload α)
  | done a => done (.ok a)
  | act (.panic payload) _ => done (.error payload)
  | act action next => act action fun r => (next r).attempt

def log (level : LogLevel) (text : String) : Routine Unit := ask (.log ⟨level, text⟩)

def sleep (ms : Nat) : Routine Unit := do
  let now : Nat ← ask .now
  ask (.sleepUntil (now + ms))

end Routine

namespace Outcome

def ofAttempt : Except PanicPayload Outcome → Outcome
  | .ok outcome => outcome
  | .error payload => panicked payload

end Outcome

def Routine.outcome (r : Routine (Except CallError Json)) : Routine Outcome := do
  return .ofResult (← r)

structure Handler where
  prepare : Routine Unit := return ()
  run : Routine Outcome

instance : Coe (Routine Outcome) Handler := ⟨fun run => { run }⟩

end Switchboard
