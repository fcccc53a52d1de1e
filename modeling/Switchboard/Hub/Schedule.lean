import Switchboard.Hub.Step

namespace Switchboard.Hub

def limit : Nat := 1000000

/-- Turns a task to its fallback, if it has to. What the task was waiting for it waits for no
more. -/
def fallBack (s : Hub) (id : Nat) : Hub :=
  match (s.task? id).bind (·.fallback) with
  | none => s
  | some (token, routine) =>
    if s.isCancelled token then
      run limit ((s.withdraw id).updateTask id fun t => { t with fallback := none }) id routine
    else s

/-- The turn of a task. It goes on as far as it can before it falls back. -/
def poll (s : Hub) (id : Nat) : Hub :=
  match s.task? id with
  | none => s
  | some t => (if t.runnable then run limit s id t.routine else s).fallBack id

def take (s : Hub) : Turn → Hub
  | .task id => s.poll id
  | .keeper => s.keep

def settleFor : Nat → Hub → Hub
  | 0, s => s
  | fuel + 1, s =>
    match s.turns with
    | [] => s
    | turn :: rest => settleFor fuel (({ s with turns := rest } : Hub).take turn)

def settle (s : Hub) : Hub := settleFor limit s

def nextTimer? (s : Hub) (time : Nat) : Option Nat :=
  ((s.timers.map Prod.fst).filter fun t => t ≤ time).min?

def ring (s : Hub) : Hub :=
  let due := s.timers.filter fun t => t.1 ≤ s.now
  due.foldl (fun s t => s.wake t.2) { s with timers := s.timers.filter fun t => s.now < t.1 }

def advanceTo (time : Nat) : Nat → Hub → Hub
  | 0, s => { s with now := time }
  | fuel + 1, s =>
    match s.nextTimer? time with
    | none => { s with now := time }
    | some next => advanceTo time fuel (({ s with now := next } : Hub).ring.settle)

def advance (s : Hub) (ms : Nat) : Hub := advanceTo (s.now + ms) ms s

end Switchboard.Hub
