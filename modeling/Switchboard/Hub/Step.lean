import Switchboard.Hub.Keeper

namespace Switchboard.Hub

abbrev Stepped := Hub × Option (Routine Outcome)

/-- Moves the events of a subscription to a remote client. When there can be no more, the other
side is told. -/
def forward (s : Hub) (subscription outlet : Nat) : Hub × Option Bool :=
  match s.subscription? subscription, s.outlet? outlet with
  | some sub, some out =>
    if !out.attended then (s.updateSubscription subscription Subscription.drop, some false)
    else if !sub.queue.isEmpty then
      ((s.setOutlet outlet { out with events := out.events ++ sub.queue }).updateSubscription
        subscription fun sub => { sub with queue := [] }, some true)
    else if sub.isStopped then (s.setOutlet outlet { out with ended := true }, some false)
    else (s, none)
  | _, _ => (s, some false)

def step (s : Hub) (task : Nat) :
    (action : Action) → (action.Reply → Routine Outcome) → Stepped
  | .log record, next => ({ s with log := s.log ++ [record] }, some (next ()))
  | .note v, next => ({ s with trace := s.trace ++ [v] }, some (next ()))
  | .now, next => (s, some (next s.now))
  | .sleepUntil time, next =>
    if time ≤ s.now then (s, some (next ())) else (s.arm time task, none)
  | .gate name, next =>
    let g := s.gate name
    if task ∈ g.waiting then (s, none)
    else
      match g.permits with
      | n + 1 => (s.setGate name { g with permits := n }, some (next ()))
      | 0 => (s.setGate name { g with waiting := g.waiting ++ [task] }, none)
  | .newToken parent, next =>
    let (n, s) := s.number
    (s, some (next (match parent with
      | none => .root n
      | some parent => .child n parent)))
  | .cancel token, next => (s.cancel token, some (next ()))
  | .isCancelled token, next => (s, some (next (s.isCancelled token)))
  | .awaitCancel token, next => (s, if s.isCancelled token then some (next ()) else none)
  | .awaitEither first second, next =>
    (s, if s.isCancelled first then some (next true)
      else if s.isCancelled second then some (next false)
      else none)
  | .call method args caller, next =>
    (s, some ((s.exchange.callWait method args caller).attempt.bind next))
  | .launch method args, next => (s, some ((s.exchange.call method args).attempt.bind next))
  | .fire event payload, next => (s, some ((s.exchange.fire event payload).attempt.bind next))
  | .ask request, next =>
    if s.kept then (s.send (.request request task next), none)
    else (s, some (next (.error .jobManagerUnavailable)))
  | .report report, next => (if s.kept then s.send (.report report) else s, some (next ()))
  | .awaitJob id deadline, next =>
    match s.board.ending? id with
    | some ending => (s, some (next ending))
    | none =>
      match deadline with
      | none => (s, none)
      | some time =>
        if time ≤ s.now then (s, some (next (.error (.waitTimeout id))))
        else (s.arm time task, none)
  | .spawn work, next =>
    let (id, s) := s.spawn (s.exchange.work work)
    (s, some (next id))
  | .join other, next => (s, (s.ended.lookup other).map next)
  | .become work, _ => (s, some (s.exchange.work work))
  | .panic payload, _ => (s, some (.done (.panicked payload)))
  | .readShelf n, next => (s, some (next (s.shelf n)))
  | .writeShelf n shelf, next => (s.setShelf n shelf, some (next ()))
  | .methods, next =>
    (s, some (next ((s.exchange.registry.methods.filter fun m => !m.2.hidden).map fun m =>
      m.2.info)))
  | .sources, next =>
    (s, some (next (s.exchange.registry.eventSources.map fun e => (e.1, e.2.accepts.describe))))
  | .sample, next => (s, some (next s.sample))
  | .beginRound n, next =>
    let s := s.updateSubscription n Subscription.begin
    (s, some (next (!(s.subscription? n).any Subscription.isStopped)))
  | .concludeRound n round, next =>
    (s.updateSubscription n fun sub => sub.conclude round, some (next ()))
  | .push n, next =>
    match (s.subscription? n).map Subscription.push with
    | none => (s, some (next false))
    | some sub =>
      if sub.isSending then (s, none)
      else (s.updateSubscription n fun _ => sub, some (next (!sub.isStopped)))
  | .rest n time, next =>
    let elapsed : Bool := time ≤ s.now
    match (s.subscription? n).map fun sub => sub.wake elapsed with
    | none => (s, some (next false))
    | some sub =>
      if elapsed || sub.isStopped then
        (s.updateSubscription n fun _ => sub, some (next (!sub.isStopped)))
      else (s.arm time task, none)
  | .forward n outlet, next =>
    match s.forward n outlet with
    | (s, some more) => (s, some (next more))
    | (s, none) => (s, none)

def run : Nat → Hub → Nat → Routine Outcome → Hub
  | 0, s, task, routine => s.updateTask task fun t => { t with routine }
  | _ + 1, s, task, .done outcome => s.finishTask task outcome
  | fuel + 1, s, task, .act action next =>
    match s.step task action next with
    | (s, some routine) => run fuel (s.disarm task) task routine
    | (s, none) =>
      s.updateTask task fun t => { t with routine := .act action next, runnable := false }

end Switchboard.Hub
