import Switchboard.Hub.Schedule

namespace Switchboard

def Builder.readyRecord (b : Builder) : LogRecord :=
  let methods := b.registry.methods.length
  let sources := b.registry.eventSources.length
  ⟨.info, s!"Middleware ready with {methods} methods and {sources} event sources"⟩

def Builder.build (b : Builder) : Hub where
  exchange := ⟨b.settings, b.registry⟩
  jobs := { maxRetained := b.settings.maxRetainedJobs }
  log := b.log ++ [b.readyRecord]

namespace Hub

def begin (s : Hub) (routine : Routine Outcome) : Nat × Hub :=
  let (id, s) := s.spawn routine
  (id, s.settle)

def outcome? (s : Hub) (task : Nat) : Option Outcome := s.ended.lookup task

def request (s : Hub) (r : JobRequest) : Hub × Except CallError r.Reply :=
  if s.kept then
    let (s, reply) := s.respond r
    let s := match r with
      | .shutdown => s.retire
      | _ => s
    (s.settle, .ok reply)
  else (s, .error .jobManagerUnavailable)

/-- Adds a permit to a gate, which goes to whoever has waited longest. -/
def releaseOne (s : Hub) (name : String) : Hub :=
  let g := s.gate name
  match g.waiting with
  | [] => s.setGate name { g with permits := g.permits + 1 }
  | id :: rest =>
    let s := s.setGate name { g with waiting := rest }
    match s.task? id with
    | none => s
    | some t =>
      match t.routine with
      | .act (.gate _) next => s.resume id (next ())
      | _ => s

def release (s : Hub) (name : String) : Nat → Hub × Nat
  | 0 => (s, (s.gate name).permits)
  | n + 1 => release (s.releaseOne name).settle name n

def takeJobEvents (s : Hub) (receiver : Nat) : List Event × Hub :=
  let (events, jobEvents) := s.jobEvents.takeAll receiver
  (events, { s with jobEvents })

def dropJobEvents (s : Hub) (receiver : Nat) : Hub :=
  { s with jobEvents := s.jobEvents.drop receiver }

/-- The source that a subscription would have. Nothing is made unless the arguments are clean; null
stands for missing arguments. -/
def openSource (s : Hub) (name : String) (args : Json) : Except CallError EventSource :=
  match s.exchange.registry.eventSources.get? name with
  | none => .error (.eventSourceNotFound name)
  | some entry =>
    let supplied := if args.isNull then none else some args
    match entry.accepts.clean entry.accepts.name supplied [] with
    | (cleaned, []) => entry.source (cleaned.getD .null)
    | (_, errors) => .error (.validation errors)

structure Subscribed where
  subscription : Nat
  task : Nat

def startSubscription (s : Hub) (name : String) (args : Json) :
    Hub × Except CallError Subscribed :=
  match s.openSource name args with
  | .error e => (s, .error e)
  | .ok source =>
    let s := s.write .debug s!"New subscription to {name}"
    let (n, s) := s.number
    let subscription : Subscription := {
      source := name
      eventType := source.eventType
      capacity := max s.exchange.settings.eventChannelCapacity 1 }
    let s := { s with subscriptions := (n, subscription) :: s.subscriptions }
    let (task, s) := s.spawn (Exchange.startRounds n name source)
    (s, .ok ⟨n, task⟩)

def subscribe (s : Hub) (name : String) (args : Json) : Hub × Except CallError Subscribed :=
  let (s, result) := s.startSubscription name args
  (s.settle, result)

def cancelSubscription (s : Hub) (n : Nat) : Hub :=
  (s.updateSubscription n Subscription.cancel).settle

def dropSubscription (s : Hub) (n : Nat) : Hub :=
  (s.updateSubscription n Subscription.drop).settle

inductive Outlook where
  | more
  | waiting
  | closed
deriving DecidableEq

/-- Takes events that wait for a subscriber, no more than `limit` of them. -/
def receive (s : Hub) (n : Nat) (limit : Option Nat) : List Event × Outlook × Hub :=
  match s.subscription? n with
  | none => ([], .closed, s)
  | some sub =>
    let s := s.updateSubscription n fun sub =>
      { sub with queue := sub.queue.drop (limit.getD sub.queue.length) }
    let outlook : Outlook :=
      if limit.any fun m => m ≤ sub.queue.length then .more
      else if sub.isStopped then .closed
      else .waiting
    (sub.queue.take (limit.getD sub.queue.length), outlook, s.settle)

def recordPanic (s : Hub) (name : String) (task : Nat) : Hub :=
  match s.outcome? task with
  | some (.panicked p) =>
    s.write .error s!"Event source {name} loop failed: {Outcome.taskPanicText task p}"
  | _ => s

end Hub

end Switchboard
