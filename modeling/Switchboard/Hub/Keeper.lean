import Switchboard.Hub.State

namespace Switchboard.Hub

def wakeWatchers (s : Hub) (id : Nat) : Hub :=
  s.wakeAt fun
    | .awaitJob n _ => n == id
    | _ => false

def apply (s : Hub) : JobEffect JobBody → Hub
  | .publish event => { s with jobEvents := s.jobEvents.broadcast event }
  | .reveal snapshot => { s with board := s.board.reveal snapshot }.wakeWatchers snapshot.id
  | .conceal id => { s with board := s.board.conceal id }.wakeWatchers id
  | .start id droppable body =>
    (s.spawn (s.exchange.runJob id body)
      (if droppable then some (.job id, Exchange.reportDropped id) else none)).2
  | .armTimer id ms =>
    let (task, s) := s.spawn (Exchange.runLockTimer id ms)
    { s with lockTimers := (id, task) :: s.lockTimers }
  | .disarmTimer id =>
    match s.lockTimers.lookup id with
    | none => s
    | some task => { s.dropTask task with lockTimers := s.lockTimers.filter fun t => t.1 != id }
  | .cancel id => s.cancel (.job id)
  | .log record => { s with log := s.log ++ [record] }

def adopt (s : Hub) (jobs : JobTable JobBody) : Hub :=
  jobs.effects.foldl apply { s with jobs := { jobs with effects := [] } }

def respond (s : Hub) : (r : JobRequest) → Hub × r.Reply
  | .submit job =>
    let (jobs, id) := s.jobs.submit s.now job
    (s.adopt jobs, id)
  | .abort id =>
    let (jobs, result) := s.jobs.abort s.now id
    (s.adopt jobs, result)
  | .get id => (s, s.jobs.snapshot? id)
  | .watch id => (s, (s.jobs.job? id).isSome)
  | .list => (s, s.jobs.snapshots)
  | .subscribe =>
    let (receiver, jobEvents) := s.jobEvents.subscribe
    ({ s with jobEvents }, receiver)
  | .shutdown =>
    let s := s.write .info "Stopping job manager"
    let (jobs, signalled) := s.jobs.stopAll s.now
    (s.adopt jobs, signalled)

def retire (s : Hub) : Hub :=
  { s with
    kept := false
    board := s.board.close
    jobEvents := s.jobEvents.close }.wakeAt fun
      | .awaitJob _ _ => true
      | _ => false

/-- Handles one letter. Without a keeper a request fails and a report is lost. -/
def handle (s : Hub) : Letter → Hub
  | .request r task next =>
    if s.kept then
      let (s, reply) := s.respond r
      let s := s.resume task (next (.ok reply))
      match r with
      | .shutdown => s.retire
      | _ => s
    else s.resume task (next (.error .jobManagerUnavailable))
  | .report r => if s.kept then s.adopt (s.jobs.report s.now r) else s

def keep (s : Hub) : Hub := s.letters.foldl handle { s with letters := [] }

def send (s : Hub) (l : Letter) : Hub :=
  { s with letters := s.letters ++ [l] }.enqueue .keeper

end Switchboard.Hub
