import Switchboard.Broadcaster
import Switchboard.Calls.Dispatch
import Switchboard.Jobs.Board

namespace Switchboard

structure Task where
  id : Nat
  routine : Routine Outcome
  runnable : Bool := true
  /-- What the task does instead when a token is cancelled. -/
  fallback : Option (Token × Routine Outcome) := none

namespace Task

def action? (t : Task) : Option Action :=
  match t.routine with
  | .act action _ => some action
  | .done _ => none

end Task

inductive Turn where
  | task (id : Nat)
  | keeper
deriving DecidableEq

inductive Letter where
  | request (request : JobRequest) (task : Nat)
      (next : Except CallError request.Reply → Routine Outcome)
  | report (report : JobReport)

structure Gate where
  permits : Nat := 0
  waiting : List Nat := []

structure Outlet where
  events : List Event := []
  attended : Bool := true
  ended : Bool := false

structure Hub where
  exchange : Exchange := {}
  now : Nat := 0
  jobs : JobTable JobBody
  board : JobBoard := {}
  jobEvents : Broadcaster Event := {}
  kept : Bool := true
  letters : List Letter := []
  tasks : List Task := []
  ended : List (Nat × Outcome) := []
  turns : List Turn := []
  timers : List (Nat × Nat) := []
  lockTimers : List (Nat × Nat) := []
  gates : Directory Gate := []
  fired : List Token := []
  subscriptions : List (Nat × Subscription) := []
  outlets : List (Nat × Outlet) := []
  shelves : List (Nat × Shelf) := []
  sample : Reporting.Sample := ⟨.text "", .text ""⟩
  nextNumber : Nat := 0
  log : List LogRecord := []
  trace : List Json := []

namespace Hub

def write (s : Hub) (level : LogLevel) (text : String) : Hub :=
  { s with log := s.log ++ [⟨level, text⟩] }

def number (s : Hub) : Nat × Hub := (s.nextNumber, { s with nextNumber := s.nextNumber + 1 })

def isCancelled (s : Hub) (token : Token) : Bool := token.isCancelled s.fired

def gate (s : Hub) (name : String) : Gate := (s.gates.get? name).getD {}

def setGate (s : Hub) (name : String) (gate : Gate) : Hub :=
  { s with gates := s.gates.insert name gate }

def shelf (s : Hub) (n : Nat) : Shelf := (s.shelves.lookup n).getD ⟨[], 1⟩

def setShelf (s : Hub) (n : Nat) (shelf : Shelf) : Hub :=
  { s with shelves := (n, shelf) :: s.shelves.filter fun e => e.1 != n }

def subscription? (s : Hub) (n : Nat) : Option Subscription := s.subscriptions.lookup n

def outlet? (s : Hub) (n : Nat) : Option Outlet := s.outlets.lookup n

def setOutlet (s : Hub) (n : Nat) (outlet : Outlet) : Hub :=
  { s with outlets := (n, outlet) :: s.outlets.filter fun e => e.1 != n }

def task? (s : Hub) (id : Nat) : Option Task := s.tasks.find? fun t => t.id == id

def updateTask (s : Hub) (id : Nat) (f : Task → Task) : Hub :=
  { s with tasks := s.tasks.map fun t => if t.id = id then f t else t }

def enqueue (s : Hub) (turn : Turn) : Hub :=
  if turn ∈ s.turns then s else { s with turns := s.turns ++ [turn] }

def wake (s : Hub) (id : Nat) : Hub :=
  (s.updateTask id fun t => { t with runnable := true }).enqueue (.task id)

def resume (s : Hub) (id : Nat) (routine : Routine Outcome) : Hub :=
  (s.updateTask id fun t => { t with routine }).wake id

def wakeAt (s : Hub) (p : Action → Bool) : Hub :=
  (s.tasks.filter fun t => t.action?.any p).foldl (fun s t => s.wake t.id) s

def spawn (s : Hub) (routine : Routine Outcome)
    (fallback : Option (Token × Routine Outcome) := none) : Nat × Hub :=
  let (id, s) := s.number
  let task : Task := { id, routine, fallback }
  (id, { s with tasks := s.tasks ++ [task] }.enqueue (.task id))

/-- Forgets all that a task waits for. -/
def withdraw (s : Hub) (id : Nat) : Hub :=
  { s with
    timers := s.timers.filter fun t => t.2 != id
    gates := s.gates.map fun g =>
      (g.1, { g.2 with waiting := g.2.waiting.filter fun w => w != id }) }

def dropTask (s : Hub) (id : Nat) : Hub :=
  { s.withdraw id with tasks := s.tasks.filter fun t => t.id != id }

def finishTask (s : Hub) (id : Nat) (outcome : Outcome) : Hub :=
  let s := s.dropTask id
  { s with ended := (id, outcome) :: s.ended }.wakeAt fun
    | .join task => task == id
    | _ => false

def arm (s : Hub) (time id : Nat) : Hub :=
  if (time, id) ∈ s.timers then s else { s with timers := s.timers ++ [(time, id)] }

def disarm (s : Hub) (id : Nat) : Hub :=
  { s with timers := s.timers.filter fun t => t.2 != id }

/-- Cancels a token, and with it all that were made from it. -/
def cancel (s : Hub) (token : Token) : Hub :=
  let s := ({ s with fired := token :: s.fired } : Hub)
  let s := s.wakeAt fun
    | .awaitCancel t => s.isCancelled t
    | .awaitEither a b => s.isCancelled a || s.isCancelled b
    | _ => false
  (s.tasks.filter fun t => t.fallback.any fun f => s.isCancelled f.1).foldl
    (fun s t => s.enqueue (.task t.id)) s

def updateSubscription (s : Hub) (n : Nat) (f : Subscription → Subscription) : Hub :=
  let change (e : Nat × Subscription) : Nat × Subscription := if e.1 = n then (n, f e.2) else e
  { s with subscriptions := s.subscriptions.map change }.wakeAt fun
    | .push m | .rest m _ | .forward m _ => m == n
    | _ => false

end Hub

end Switchboard
