import Switchboard.Jobs.Snapshot

namespace Switchboard

structure JobBoard where
  latest : List (Nat × JobSnapshot) := []
  /-- The jobs of which nothing more will be shown. -/
  concealed : List Nat := []
  closed : Bool := false

namespace JobBoard

def snapshot? (b : JobBoard) (id : Nat) : Option JobSnapshot := b.latest.lookup id

def reveal (b : JobBoard) (s : JobSnapshot) : JobBoard :=
  { b with latest := (s.id, s) :: b.latest.filter fun l => l.1 != s.id }

def conceal (b : JobBoard) (id : Nat) : JobBoard := { b with concealed := id :: b.concealed }

def close (b : JobBoard) : JobBoard := { b with closed := true }

def isOver (b : JobBoard) (id : Nat) : Bool := b.closed || b.concealed.contains id

def ending? (b : JobBoard) (id : Nat) : Option (Except CallError JobSnapshot) :=
  match b.snapshot? id with
  | some s =>
    if s.state.isTerminal then some (.ok s)
    else if b.isOver id then some (.error .jobManagerUnavailable)
    else none
  | none => if b.isOver id then some (.error .jobManagerUnavailable) else none

end JobBoard

end Switchboard
