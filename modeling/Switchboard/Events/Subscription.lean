import Switchboard.Error
import Switchboard.Events.Event
import Switchboard.Script.Basic

namespace Switchboard

inductive Round where
  | payload (fields : Json)
  | nothing
  | failed (e : CallError)
  | panicked (p : PanicPayload)

inductive Phase where
  | ready
  | working
  | sending (e : Event)
  | resting
  | stopped

structure Subscription where
  source : String
  eventType : EventType
  capacity : Nat
  queue : List Event := []
  phase : Phase := .ready
  cancelled : Bool := false
  attended : Bool := true

namespace Subscription

def begin (s : Subscription) : Subscription :=
  match s.phase with
  | .ready => { s with phase := if s.cancelled then .stopped else .working }
  | _ => s

def conclude (s : Subscription) (r : Round) : Subscription :=
  match s.phase with
  | .working =>
    { s with phase := match r with
      | .payload fields => .sending ⟨s.eventType, s.source, none, fields⟩
      | .nothing => .resting
      | .failed _ | .panicked _ => .stopped }
  | _ => s

def push (s : Subscription) : Subscription :=
  match s.phase with
  | .sending e =>
    if !s.attended then { s with phase := .stopped }
    else if s.queue.length < s.capacity then
      { s with queue := s.queue ++ [e], phase := .resting }
    else if s.cancelled then { s with phase := .stopped }
    else s
  | _ => s

def wake (s : Subscription) (elapsed : Bool) : Subscription :=
  match s.phase with
  | .resting =>
    if elapsed then { s with phase := .ready }
    else if s.cancelled then { s with phase := .stopped }
    else s
  | _ => s

def stop (s : Subscription) : Subscription := { s with phase := .stopped }

def isStopped (s : Subscription) : Bool :=
  match s.phase with
  | .stopped => true
  | _ => false

def isSending (s : Subscription) : Bool :=
  match s.phase with
  | .sending _ => true
  | _ => false

def take? (s : Subscription) : Option (Event × Subscription) :=
  match s.queue with
  | [] => none
  | e :: rest => some (e, { s with queue := rest })

def cancel (s : Subscription) : Subscription := { s with cancelled := true }

def drop (s : Subscription) : Subscription :=
  { s with attended := false, cancelled := true, queue := [] }

end Subscription

end Switchboard
