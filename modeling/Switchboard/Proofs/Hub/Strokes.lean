import Switchboard.Hub.Client

namespace Switchboard

inductive Stroke where
  | begin (routine : Routine Outcome)
  | act (task : Nat)
  | fall (task : Nat)
  | request
  | report
  | around (other : Hub)
  | take (receiver : Nat)
  | drop (receiver : Nat)

def Letter.isRequest : Letter → Bool
  | .request _ _ _ => true
  | .report _ => false

def Letter.isReport (l : Letter) : Bool := !l.isRequest

def Letter.isOf (task : Nat) : Letter → Bool
  | .request _ sender _ => sender == task
  | .report _ => false

def JobRequest.isShutdown : JobRequest → Bool
  | .shutdown => true
  | _ => false

def Task.bare (t : Task) : Task := { t with runnable := false }

namespace Hub

variable {s s' : Hub} {id task : Nat}

/-- Whether a task waits for an answer of the keeper. -/
def asking (s : Hub) (task : Nat) : Bool := s.letters.any (Letter.isOf task)

def act (s : Hub) (task : Nat) : Hub :=
  match s.task? task with
  | none => s
  | some t => if s.asking task then s else run 1 s task t.routine

def handleFirst (s : Hub) (p : Letter → Bool) : Hub :=
  match s.letters.find? p with
  | none => s
  | some letter => ({ s with letters := s.letters.eraseP p } : Hub).handle letter

def around (s other : Hub) : Hub :=
  { s with
    now := other.now
    turns := other.turns
    timers := other.timers
    gates := other.gates
    subscriptions := other.subscriptions
    outlets := other.outlets
    shelves := other.shelves
    sample := other.sample }

def does (s : Hub) : Stroke → Hub
  | .begin routine => (s.spawn routine).2
  | .act task => s.act task
  | .fall task => s.fallBack task
  | .request => s.handleFirst Letter.isRequest
  | .report => s.handleFirst Letter.isReport
  | .around other => s.around other
  | .take receiver => (s.takeJobEvents receiver).2
  | .drop receiver => s.dropJobEvents receiver

def plays (s : Hub) (strokes : List Stroke) : Hub := strokes.foldl does s

theorem plays_append (s : Hub) (strokes more : List Stroke) :
    s.plays (strokes ++ more) = (s.plays strokes).plays more := List.foldl_append

theorem does_request {l : Letter} (h : s.letters.find? Letter.isRequest = some l) :
    s.does .request = ({ s with letters := s.letters.eraseP Letter.isRequest } : Hub).handle l := by
  simp only [does, handleFirst, h]

theorem does_report {l : Letter} (h : s.letters.find? Letter.isReport = some l) :
    s.does .report = ({ s with letters := s.letters.eraseP Letter.isReport } : Hub).handle l := by
  simp only [does, handleFirst, h]

def answer (s : Hub) (r : JobRequest) (task : Nat)
    (next : Except CallError r.Reply → Routine Outcome) : Hub :=
  (s.respond r).1.resume task (next (.ok (s.respond r).2))

theorem handle_request (h : s.kept = true) (r : JobRequest) (task : Nat)
    (next : Except CallError r.Reply → Routine Outcome) : s.handle (.request r task next) =
      if r.isShutdown then (s.answer r task next).retire else s.answer r task next := by
  simp only [handle, h, if_true]
  cases r <;> rfl

/-- The hub without what decides about the order of things, or only about replies. -/
def bare (s : Hub) : Hub where
  exchange := s.exchange
  jobs := s.jobs
  board := s.board
  jobEvents := s.jobEvents
  kept := s.kept
  letters := s.letters
  tasks := s.tasks.map Task.bare
  lockTimers := s.lockTimers
  fired := s.fired
  nextNumber := s.nextNumber

def goOn (s : Hub) (id : Nat) (routine : Routine Outcome) : Hub :=
  s.updateTask id fun t => { t with routine }

theorem bare_updateTask (s : Hub) (id : Nat) {f g : Task → Task}
    (hf : ∀ t, (f t).bare = (g t).bare) :
    (s.updateTask id f).bare = (s.updateTask id g).bare := by
  simp only [updateTask, bare, List.map_map]
  congr 1
  refine List.map_congr_left fun t _ => ?_
  by_cases ht : t.id = id <;> simp [ht, hf t]

theorem bare_updateTask_same (s : Hub) (id : Nat) {f : Task → Task}
    (hf : ∀ t, (f t).bare = t.bare) : (s.updateTask id f).bare = s.bare := by
  simp only [updateTask, bare, List.map_map]
  congr 1
  refine List.map_congr_left fun t _ => ?_
  by_cases ht : t.id = id <;> simp [ht, hf t]

@[simp] theorem bare_enqueue (s : Hub) (turn : Turn) : (s.enqueue turn).bare = s.bare := by
  unfold enqueue
  split <;> rfl

@[simp] theorem bare_wake (s : Hub) (id : Nat) : (s.wake id).bare = s.bare := by
  rw [wake, bare_enqueue]
  exact bare_updateTask_same s id fun _ => rfl

theorem bare_foldl {α : Type} {f : Hub → α → Hub} (hf : ∀ s a, (f s a).bare = s.bare)
    (l : List α) (s : Hub) : (l.foldl f s).bare = s.bare := by
  induction l generalizing s with
  | nil => rfl
  | cons a rest ih => exact (ih (f s a)).trans (hf s a)

@[simp] theorem bare_wakeAt (s : Hub) (p : Action → Bool) : (s.wakeAt p).bare = s.bare :=
  bare_foldl (fun s (t : Task) => bare_wake s t.id) _ s

theorem bare_goOn_congr (h : s.bare = s'.bare) (id : Nat) (routine : Routine Outcome) :
    (s.goOn id routine).bare = (s'.goOn id routine).bare := by
  have hbare : ∀ s : Hub, (s.goOn id routine).bare = s.bare.goOn id routine := by
    intro s
    simp only [goOn, updateTask, bare, List.map_map]
    congr 1
    refine List.map_congr_left fun t _ => ?_
    by_cases ht : t.id = id <;> simp [ht, Task.bare]
  rw [hbare, hbare, h]

@[simp] theorem bare_resume (s : Hub) (id : Nat) (routine : Routine Outcome) :
    (s.resume id routine).bare = (s.goOn id routine).bare := bare_wake _ _

@[simp] theorem bare_withdraw (s : Hub) (id : Nat) : (s.withdraw id).bare = s.bare := rfl

@[simp] theorem bare_disarm (s : Hub) (id : Nat) : (s.disarm id).bare = s.bare := rfl

@[simp] theorem bare_arm (s : Hub) (time id : Nat) : (s.arm time id).bare = s.bare := by
  unfold arm
  split <;> rfl

@[simp] theorem bare_finishTask (s : Hub) (id : Nat) (outcome : Outcome) :
    (s.finishTask id outcome).bare = (s.dropTask id).bare := bare_wakeAt _ _

@[simp] theorem bare_cancel (s : Hub) (token : Token) :
    (s.cancel token).bare = ({ s with fired := token :: s.fired } : Hub).bare :=
  (bare_foldl (fun s (t : Task) => bare_enqueue s (.task t.id)) _ _).trans (bare_wakeAt _ _)

@[simp] theorem bare_updateSubscription (s : Hub) (n : Nat) (f : Subscription → Subscription) :
    (s.updateSubscription n f).bare = s.bare := bare_wakeAt _ _

@[simp] theorem bare_send (s : Hub) (l : Letter) :
    (s.send l).bare = ({ s with letters := s.letters ++ [l] } : Hub).bare := bare_enqueue _ _

@[simp] theorem bare_spawn (s : Hub) (routine : Routine Outcome)
    (fallback : Option (Token × Routine Outcome)) : (s.spawn routine fallback).2.bare =
      ({ s with
        nextNumber := s.nextNumber + 1
        tasks := s.tasks ++ [{ id := s.nextNumber, routine, fallback }] } : Hub).bare :=
  bare_enqueue _ _

@[simp] theorem bare_wakeWatchers (s : Hub) (id : Nat) : (s.wakeWatchers id).bare = s.bare :=
  bare_wakeAt _ _

@[simp] theorem bare_retire (s : Hub) : s.retire.bare = ({ s with
    kept := false
    board := s.board.close
    jobEvents := s.jobEvents.close } : Hub).bare := bare_wakeAt _ _

@[simp] theorem bare_around (s other : Hub) : (s.around other).bare = s.bare := rfl

theorem bare_forward (s : Hub) (n outlet : Nat) : (s.forward n outlet).1.bare = s.bare := by
  unfold forward
  split
  next =>
    split
    next => exact bare_updateSubscription _ _ _
    next =>
      split
      next => exact bare_updateSubscription _ _ _
      next => split <;> rfl
  next => rfl

/-- What an action does to a hub, as far as it matters. -/
def imprint (s : Hub) (task : Nat) :
    (action : Action) → (action.Reply → Routine Outcome) → Hub
  | .newToken _, _ => { s with nextNumber := s.nextNumber + 1 }
  | .cancel token, _ => { s with fired := token :: s.fired }
  | .ask request, next =>
    if s.kept then { s with letters := s.letters ++ [.request request task next] } else s
  | .report report, _ => if s.kept then { s with letters := s.letters ++ [.report report] } else s
  | .spawn work, _ => (s.spawn (s.exchange.work work)).2
  | _, _ => s

theorem bare_step (s : Hub) (task : Nat) (action : Action)
    (next : action.Reply → Routine Outcome) :
    (s.step task action next).1.bare = (s.imprint task action next).bare := by
  cases action with
  | cancel token => exact bare_cancel s token
  | ask request =>
    simp only [step, imprint]
    split
    next => exact bare_send _ _
    next => rfl
  | report report =>
    simp only [step, imprint]
    split
    next => exact bare_send _ _
    next => rfl
  | sleepUntil time =>
    simp only [step, imprint]
    split
    next => rfl
    next => exact bare_arm _ _ _
  | gate name =>
    simp only [step, imprint]
    split
    next => rfl
    next => split <;> rfl
  | awaitJob id deadline =>
    simp only [step, imprint]
    split
    next => rfl
    next =>
      split
      next => rfl
      next =>
        split
        next => rfl
        next => exact bare_arm _ _ _
  | beginRound n => exact bare_updateSubscription _ _ _
  | concludeRound n round => exact bare_updateSubscription _ _ _
  | push n =>
    simp only [step, imprint]
    split
    next => rfl
    next =>
      split
      next => rfl
      next => exact bare_updateSubscription _ _ _
  | rest n time =>
    simp only [step, imprint]
    split
    next => rfl
    next =>
      split
      next => exact bare_updateSubscription _ _ _
      next => exact bare_arm _ _ _
  | forward n outlet =>
    have hforward := bare_forward s n outlet
    simp only [step, imprint]
    split
    next heq => exact (congrArg (fun r => r.1.bare) heq).symm.trans hforward
    next heq => exact (congrArg (fun r => r.1.bare) heq).symm.trans hforward
  | _ => rfl

/-- A task that acts goes on as its action lets it, or stays where it is. -/
theorem bare_run_one (s : Hub) (id : Nat) (action : Action)
    (next : action.Reply → Routine Outcome) :
    (run 1 s id (.act action next)).bare =
      ((s.imprint id action next).goOn id
        ((s.step id action next).2.getD (.act action next))).bare := by
  have hstep := bare_step s id action next
  rw [run]
  split
  next s' routine heq =>
    rw [heq] at hstep ⊢
    exact bare_goOn_congr (s := s'.disarm id) ((bare_disarm _ _).trans hstep) id routine
  next s' heq =>
    rw [heq] at hstep ⊢
    refine Eq.trans ?_ (bare_goOn_congr hstep id _)
    exact bare_updateTask s' id fun _ => rfl

end Hub

end Switchboard
