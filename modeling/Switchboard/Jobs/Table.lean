import Switchboard.Events.Event
import Switchboard.Jobs.Snapshot
import Switchboard.Log

namespace Switchboard

def jobsCollection : String := "core.get_jobs"

structure NewJob (β : Type) where
  method : String
  arguments : List Json
  lock : Option String := none
  description : Option String := none
  lockQueueSize : Option Nat := none
  lockTimeout : Option Nat := none
  abortable : Bool := false
  transient : Bool := false
  /-- A blocking body cannot be dropped halfway. -/
  blocking : Bool := false
  body : β

structure JobEntry (β : Type) where
  snapshot : JobSnapshot
  cancelled : Bool := false
  blocking : Bool
  body : Option β

namespace JobEntry

variable {β : Type}

def id (e : JobEntry β) : Nat := e.snapshot.id

def state (e : JobEntry β) : JobState := e.snapshot.state

end JobEntry

structure LockQueue where
  running : Option Nat := none
  waiting : List Nat := []
deriving DecidableEq

inductive JobEffect (β : Type) where
  | publish (event : Event)
  | reveal (snapshot : JobSnapshot)
  | conceal (id : Nat)
  /-- Runs the body of a job, which is dropped when the job is cancelled if it is `droppable`. -/
  | start (id : Nat) (droppable : Bool) (body : β)
  | armTimer (id : Nat) (ms : Nat)
  | disarmTimer (id : Nat)
  | cancel (id : Nat)
  | log (record : LogRecord)

structure JobTable (β : Type) where
  maxRetained : Nat
  nextId : Nat := 1
  jobs : List (JobEntry β) := []
  locks : List (String × LockQueue) := []
  /-- The finished jobs, oldest first. -/
  finished : List Nat := []
  effects : List (JobEffect β) := []

inductive JobReport where
  | progressed (id : Nat) (percent : Nat) (description : Option String)
  | finished (id : Nat) (outcome : Except CallError Json)
  | lockTimedOut (id : Nat)

namespace JobTable

variable {β : Type}

def job? (t : JobTable β) (id : Nat) : Option (JobEntry β) := t.jobs.find? fun e => e.id == id

def snapshot? (t : JobTable β) (id : Nat) : Option JobSnapshot := (t.job? id).map (·.snapshot)

def snapshots (t : JobTable β) : List JobSnapshot := t.jobs.map (·.snapshot)

def update (t : JobTable β) (id : Nat) (f : JobEntry β → JobEntry β) : JobTable β :=
  { t with jobs := t.jobs.map fun e => if e.id = id then f e else e }

def queue? (t : JobTable β) (lock : String) : Option LockQueue := t.locks.lookup lock

def dropQueue (t : JobTable β) (lock : String) : JobTable β :=
  { t with locks := t.locks.filter fun q => q.1 != lock }

def setQueue (t : JobTable β) (lock : String) (q : LockQueue) : JobTable β :=
  { t with locks := (lock, q) :: (t.dropQueue lock).locks }

def want (t : JobTable β) (e : JobEffect β) : JobTable β := { t with effects := t.effects ++ [e] }

def log (t : JobTable β) (level : LogLevel) (text : String) : JobTable β :=
  t.want (.log ⟨level, text⟩)

def publish (t : JobTable β) (id : Nat) (type : EventType) : JobTable β :=
  match t.snapshot? id with
  | none => t
  | some s =>
    if s.transient then t
    else t.want (.publish ⟨type, jobsCollection, some (.nat id), s.toJson⟩)

def change (t : JobTable β) (id : Nat) (s : JobSnapshot) : JobTable β :=
  ((t.update id fun e => { e with snapshot := s }).want (.reveal s)).publish id .changed

def transition (t : JobTable β) (id : Nat) (next : JobState) (edit : JobSnapshot → JobSnapshot) :
    JobTable β × Bool :=
  match t.snapshot? id with
  | none => (t, false)
  | some s =>
    if s.state.canBecome next then (t.change id (edit { s with state := next }), true)
    else (t.log .error
      s!"Job {id}: refusing transition {s.state.logName} -> {next.logName}", false)

def start (t : JobTable β) (now id : Nat) : JobTable β :=
  match t.job? id with
  | none => t
  | some e =>
    match e.body with
    | none => t.log .error s!"Job {id} was already started"
    | some body =>
      let t := (t.update id fun e => { e with body := none }).want (.disarmTimer id)
      let (t, started) := t.transition id .running fun s => { s with timeStarted := some now }
      if started then
        (t.log .info s!"Job {id} ({e.snapshot.method}) started").want
          (.start id (e.snapshot.abortable && !e.blocking) body)
      else t

def evict (t : JobTable β) (id : Nat) : JobTable β :=
  let t := t.publish id .removed
  { t with jobs := t.jobs.filter fun e => e.id != id }.want (.conceal id)

/-- Counts a job among the finished ones, and forgets the oldest of those if they are too many. A
transient job is forgotten at once. -/
def retire (t : JobTable β) (id : Nat) : JobTable β :=
  if (t.snapshot? id).any (·.transient) then
    { t with jobs := t.jobs.filter fun e => e.id != id }.want (.conceal id)
  else
    let finished := t.finished ++ [id]
    let excess := finished.length - t.maxRetained
    (finished.take excess).foldl evict { t with finished := finished.drop excess }

def release (t : JobTable β) (now id : Nat) : JobTable β :=
  match (t.snapshot? id).bind (·.lock) with
  | none => t
  | some lock =>
    match t.queue? lock with
    | none => t
    | some q =>
      let q :=
        if q.running = some id then { q with running := none }
        else { q with waiting := q.waiting.filter fun w => w != id }
      if q.running.isSome then t.setQueue lock q
      else
        match q.waiting with
        | [] => t.dropQueue lock
        | next :: waiting =>
          ((t.setQueue lock ⟨some next, waiting⟩).log .debug
            s!"Lock {lock} passed from job {id} to job {next}").start now next

def finishUnstarted (t : JobTable β) (now id : Nat) (state : JobState) (error : CallError) :
    JobTable β :=
  let t := (t.update id fun e => { e with body := none }).want (.disarmTimer id)
  (t.transition id state fun s =>
    { s with error := some error, timeFinished := some now }).1.retire id

/-- The job that stands for a new one because the queue of its lock is full: the last that waits,
or else the one that runs. -/
def standIn? (t : JobTable β) (job : NewJob β) : Option (String × Nat) :=
  match job.lock, job.lockQueueSize with
  | some lock, some size =>
    match t.queue? lock with
    | some q =>
      if size ≤ q.waiting.length then (q.waiting.getLast?.or q.running).map fun id => (lock, id)
      else none
    | none => none
  | _, _ => none

def enter (t : JobTable β) (now : Nat) (job : NewJob β) : JobTable β :=
  let id := t.nextId
  let s : JobSnapshot := {
    id, method := job.method, arguments := job.arguments, lock := job.lock
    description := job.description, abortable := job.abortable, transient := job.transient
    timeCreated := now }
  let entry : JobEntry β := { snapshot := s, blocking := job.blocking, body := some job.body }
  let t := t.log .debug s!"Job {id} ({job.method}) submitted"
  let t := { t with nextId := id + 1, jobs := t.jobs ++ [entry] }
  (t.want (.reveal s)).publish id .added

def queueUp (t : JobTable β) (now id : Nat) (lock : String) (timeout : Option Nat) : JobTable β :=
  let q : LockQueue := (t.queue? lock).getD {}
  match q.running with
  | none => (t.setQueue lock { q with running := some id }).start now id
  | some _ =>
    let t := (t.setQueue lock { q with waiting := q.waiting ++ [id] }).log .debug
      s!"Job {id} is waiting for lock {lock}"
    match timeout with
    | some ms => t.want (.armTimer id ms)
    | none => t

/-- Takes a job in and returns the number of the job that does it. -/
def submit (t : JobTable β) (now : Nat) (job : NewJob β) : JobTable β × Nat :=
  match t.standIn? job with
  | some (lock, id) =>
    (t.log .debug s!"Lock {lock} queue is full, {job.method} folded into job {id}", id)
  | none =>
    let id := t.nextId
    let t := t.enter now job
    match job.lock with
    | some lock => (t.queueUp now id lock job.lockTimeout, id)
    | none => (t.start now id, id)

/-- Ends a waiting job, or asks a running one to stop. -/
def abort (t : JobTable β) (now id : Nat) : JobTable β × Except CallError Unit :=
  match t.job? id with
  | none => (t, .error (.jobNotFound id))
  | some e =>
    match e.state with
    | .waiting =>
      (((t.release now id).finishUnstarted now id .aborted .aborted).log .info
        s!"Job {id} aborted before it started", .ok ())
    | .running =>
      if e.snapshot.abortable then
        (((t.update id fun e => { e with cancelled := true }).want (.cancel id)).log .info
          s!"Abort requested for job {id}", .ok ())
      else (t, .error (.notAbortable id))
    | .success | .failed | .aborted => (t, .ok ())

/-- Ends the waiting jobs and asks the running ones to stop. Returns how many there were. -/
def stopAll (t : JobTable β) (now : Nat) : JobTable β × Nat :=
  let running := (t.jobs.filter fun e => e.state = .running).map (·.id)
  let waiting := (t.jobs.filter fun e => e.state = .waiting).map (·.id)
  let t := running.foldl (fun t id =>
    (t.update id fun e => { e with cancelled := true }).want (.cancel id)) t
  let t := waiting.foldl (fun t id => t.finishUnstarted now id .aborted .aborted) t
  ({ t with locks := [] }, running.length + waiting.length)

/-- Progress counts only while the job runs. -/
def progress (t : JobTable β) (id percent : Nat) (description : Option String) : JobTable β :=
  match t.snapshot? id with
  | none => t
  | some s =>
    let progress := s.progress.report percent description
    if s.state = .running ∧ progress ≠ s.progress then t.change id { s with progress }
    else t

/-- The outcome of a body as the table keeps it: whatever a cancelled job fails with, it was
aborted. -/
def settled (cancelled : Bool) (outcome : Except CallError Json) : Except CallError Json :=
  match outcome with
  | .ok v => .ok v
  | .error e => .error (if cancelled then .aborted else e)

def endState (outcome : Except CallError Json) : JobState :=
  match outcome with
  | .ok _ => .success
  | .error .aborted => .aborted
  | .error _ => .failed

def endRecord (id : Nat) (outcome : Except CallError Json) : LogRecord :=
  match outcome with
  | .ok _ => ⟨.info, s!"Job {id} succeeded"⟩
  | .error .aborted => ⟨.info, s!"Job {id} aborted"⟩
  | .error e => ⟨.warn, s!"Job {id} failed: {e.message}"⟩

def endSnapshot (now : Nat) (outcome : Except CallError Json) (s : JobSnapshot) : JobSnapshot :=
  match outcome with
  | .ok v => { s with
      progress := { s.progress with percent := 100 }, result := some v, error := none
      timeFinished := some now }
  | .error e => { s with result := none, error := some e, timeFinished := some now }

def finish (t : JobTable β) (now id : Nat) (outcome : Except CallError Json) : JobTable β :=
  match t.job? id with
  | none => t
  | some e =>
    let outcome := settled e.cancelled outcome
    let t := t.want (.log (endRecord id outcome))
    ((t.transition id (endState outcome) (endSnapshot now outcome)).1.release now id).retire id

def lockTimedOut (t : JobTable β) (now id : Nat) : JobTable β :=
  match t.job? id with
  | none => t
  | some e =>
    if e.state = .waiting then
      let lock := e.snapshot.lock.getD ""
      ((t.log .warn s!"Job {id} timed out waiting for lock {lock}").release now id).finishUnstarted
        now id .failed (.lockTimeout lock)
    else t

def report (t : JobTable β) (now : Nat) : JobReport → JobTable β
  | .progressed id percent description => t.progress id percent description
  | .finished id outcome => t.finish now id outcome
  | .lockTimedOut id => t.lockTimedOut now id

end JobTable

end Switchboard
