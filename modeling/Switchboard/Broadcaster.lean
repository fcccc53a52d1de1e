namespace Switchboard

structure Broadcaster (α : Type) where
  /-- The subscribers that values are sent to, some of which may have gone away. -/
  senders : List Nat := []
  queues : List (Nat × List α) := []
  nextId : Nat := 0

namespace Broadcaster

variable {α : Type}

def queue? (b : Broadcaster α) (id : Nat) : Option (List α) := b.queues.lookup id

def isLive (b : Broadcaster α) (id : Nat) : Bool := (b.queue? id).isSome

def setQueue (b : Broadcaster α) (id : Nat) (values : List α) : Broadcaster α :=
  { b with queues := b.queues.map fun q => if q.1 = id then (id, values) else q }

def subscribe (b : Broadcaster α) : Nat × Broadcaster α :=
  (b.nextId,
    { senders := b.senders.filter b.isLive ++ [b.nextId]
      queues := b.queues ++ [(b.nextId, [])]
      nextId := b.nextId + 1 })

def broadcast (b : Broadcaster α) (v : α) : Broadcaster α :=
  { b with
    senders := b.senders.filter b.isLive
    queues := b.queues.map fun q => if q.1 ∈ b.senders then (q.1, q.2 ++ [v]) else q }

def broadcastAll (b : Broadcaster α) (vs : List α) : Broadcaster α := vs.foldl broadcast b

def size (b : Broadcaster α) : Nat := b.senders.length

def take? (b : Broadcaster α) (id : Nat) : Option (α × Broadcaster α) :=
  match b.queue? id with
  | some (v :: rest) => some (v, b.setQueue id rest)
  | _ => none

def takeAll (b : Broadcaster α) (id : Nat) : List α × Broadcaster α :=
  ((b.queue? id).getD [], b.setQueue id [])

def drop (b : Broadcaster α) (id : Nat) : Broadcaster α :=
  { b with queues := b.queues.filter fun q => q.1 != id }

/-- Ends the broadcast; what waits can still be taken. -/
def close (b : Broadcaster α) : Broadcaster α := { b with senders := [] }

def isClosed (b : Broadcaster α) (id : Nat) : Bool := !(b.senders.contains id)

end Broadcaster

end Switchboard
