import Mathlib.Logic.Relation
import Switchboard.Proofs.Calls.Lawful
import Switchboard.Proofs.Hub.Strokes
import Switchboard.Proofs.Jobs.Aborts

namespace Switchboard

/-- The job in whose name a token was made. -/
def Token.job? : Token → Option Nat
  | .job id => some id
  | .root _ => none
  | .child _ parent => parent.job?

/-- A job under guard: the guard has it aborted when the caller is cancelled, unless the call is
done first. -/
structure Ward where
  guard : Nat
  caller : Token
  job : Nat
  done : Token
deriving DecidableEq

inductive Happening where
  | called (task : Nat) (caller : Token)
  | answered (task job : Nat) (isNew : Bool)
  | refused (task : Nat)
  | armed (task : Nat) (ward : Ward)
  | asked (task job : Nat)
  | stopped
  | dropped (task : Nat)
deriving DecidableEq

abbrev Chronicle := List Happening

namespace Chronicle

variable {h : Chronicle} {task job : Nat} {caller : Token} {isNew : Bool}

def caller? (task : Nat) : Chronicle → Option Token
  | [] => none
  | .called k caller :: h => if k = task then some caller else caller? task h
  | .answered k _ _ :: h | .refused k :: h => if k = task then none else caller? task h
  | .armed _ _ :: h | .asked _ _ :: h | .stopped :: h | .dropped _ :: h => caller? task h

/-- A call that a task has made for a caller was answered with a job. -/
def Answered (h : Chronicle) (task : Nat) (caller : Token) (job : Nat) (isNew : Bool) : Prop :=
  ∃ later earlier, h = later ++ .answered task job isNew :: earlier ∧
    caller? task earlier = some caller

def Submitted (h : Chronicle) (parent job : Nat) (isNew : Bool) : Prop :=
  ∃ task caller, Answered h task caller job isNew ∧ caller.job? = some parent

/-- The abort of a job was asked for, and not by a guard. -/
def Asked (h : Chronicle) (job : Nat) : Prop :=
  ∃ later task earlier, h = later ++ .asked task job :: earlier ∧
    ∀ k ward, .armed k ward ∈ earlier → ward.guard ≠ task

/-- An abort that was asked for leads to the abort of a job: through the calls made in the name of
the first job, then through those made in the name of the jobs that answered them, and so on. -/
def Descends (h : Chronicle) (job : Nat) : Prop :=
  ∃ first, Asked h first ∧
    Relation.ReflTransGen (fun parent job => ∃ isNew, Submitted h parent job isNew) first job

/-- There is a reason to abort a job. -/
def Blames (h : Chronicle) (job : Nat) : Prop := .stopped ∈ h ∨ Descends h job

/-- A task has put a job under guard for a caller. -/
def Armed (h : Chronicle) (task : Nat) (caller : Token) (job : Nat) : Prop :=
  ∃ ward : Ward, .armed task ward ∈ h ∧ ward.caller = caller ∧ ward.job = job

theorem Answered.cons (hh : Answered h task caller job isNew) (e : Happening) :
    Answered (e :: h) task caller job isNew := by
  obtain ⟨later, earlier, rfl, hcaller⟩ := hh
  exact ⟨e :: later, earlier, rfl, hcaller⟩

theorem answered_cons_iff {e : Happening} : Answered (e :: h) task caller job isNew ↔
    (e = .answered task job isNew ∧ caller? task h = some caller) ∨
      Answered h task caller job isNew := by
  constructor
  · rintro ⟨later, earlier, heq, hcaller⟩
    cases later with
    | nil =>
      obtain ⟨rfl, rfl⟩ := List.cons.inj heq
      exact .inl ⟨rfl, hcaller⟩
    | cons e' later =>
      obtain ⟨-, rfl⟩ := List.cons.inj heq
      exact .inr ⟨later, earlier, rfl, hcaller⟩
  · rintro (⟨rfl, hcaller⟩ | hh)
    · exact ⟨[], h, rfl, hcaller⟩
    · exact hh.cons e

theorem not_answered_nil : ¬ Answered [] task caller job isNew := by
  rintro ⟨later, earlier, heq, -⟩
  cases later <;> cases heq

theorem Submitted.cons {parent : Nat} (hh : Submitted h parent job isNew) (e : Happening) :
    Submitted (e :: h) parent job isNew := by
  obtain ⟨task, caller, hanswered, hparent⟩ := hh
  exact ⟨task, caller, hanswered.cons e, hparent⟩

theorem Asked.cons (hh : Asked h job) (e : Happening) : Asked (e :: h) job := by
  obtain ⟨later, task, earlier, rfl, hnot⟩ := hh
  exact ⟨e :: later, task, earlier, rfl, hnot⟩

theorem asked_cons_iff {e : Happening} : Asked (e :: h) job ↔
    (∃ task, e = .asked task job ∧ ∀ k ward, .armed k ward ∈ h → ward.guard ≠ task) ∨
      Asked h job := by
  constructor
  · rintro ⟨later, task, earlier, heq, hnot⟩
    cases later with
    | nil =>
      obtain ⟨rfl, rfl⟩ := List.cons.inj heq
      exact .inl ⟨task, rfl, hnot⟩
    | cons e' later =>
      obtain ⟨-, rfl⟩ := List.cons.inj heq
      exact .inr ⟨later, task, earlier, rfl, hnot⟩
  · rintro (⟨task, rfl, hnot⟩ | hh)
    · exact ⟨[], task, h, rfl, hnot⟩
    · exact hh.cons e

theorem not_asked_nil : ¬ Asked [] job := by
  rintro ⟨later, task, earlier, heq, -⟩
  cases later <;> cases heq

theorem Descends.cons (hh : Descends h job) (e : Happening) : Descends (e :: h) job := by
  obtain ⟨first, hasked, hpath⟩ := hh
  refine ⟨first, hasked.cons e, hpath.lift id fun parent job hlink => ?_⟩
  obtain ⟨isNew, hsub⟩ := hlink
  exact ⟨isNew, hsub.cons e⟩

theorem Blames.cons (hh : Blames h job) (e : Happening) : Blames (e :: h) job :=
  hh.imp (List.mem_cons_of_mem e) fun hd => hd.cons e

/-- An abort leads on to what was submitted in the name of the job. -/
theorem Blames.submitted {parent : Nat} (hh : Blames h parent)
    (hsub : Submitted h parent job isNew) : Blames h job := by
  rcases hh with hstopped | ⟨first, hasked, hpath⟩
  · exact .inl hstopped
  · exact .inr ⟨first, hasked, hpath.tail ⟨isNew, hsub⟩⟩

end Chronicle

namespace Hub

def heardOf (s : Hub) (task : Nat) : Action → Chronicle
  | .call name args (some caller) =>
    if s.exchange.submits name args then [.called task caller] else []
  | .ask (.submit _) => if s.kept then [] else [.refused task]
  | .ask (.abort job) => [.asked task job]
  | .spawn (.guard job caller done) => [.armed task ⟨s.nextNumber, caller, job, done⟩]
  | _ => []

def heardFor (s : Hub) (task : Nat) : JobRequest → Chronicle
  | .submit job =>
    if s.kept then [.answered task (s.jobs.submit s.now job).2 (s.jobs.standIn? job).isNone]
    else [.refused task]
  | .shutdown => if s.kept then [.stopped] else []
  | _ => []

def heard (s : Hub) : Stroke → Chronicle
  | .act task =>
    match s.task? task with
    | none => []
    | some t =>
      if s.asking task then []
      else
        match t.routine with
        | .done _ => []
        | .act action _ => s.heardOf task action
  | .fall task =>
    match (s.task? task).bind (·.fallback) with
    | none => []
    | some (token, _) => if s.isCancelled token then [.dropped task] else []
  | .request =>
    match s.letters.find? Letter.isRequest with
    | some (.request r task _) => s.heardFor task r
    | _ => []
  | _ => []

def retell (s : Hub) (h : Chronicle) : List Stroke → Chronicle
  | [] => h
  | stroke :: rest => (s.does stroke).retell (s.heard stroke ++ h) rest

def chronicle (s : Hub) (strokes : List Stroke) : Chronicle := s.retell [] strokes

/-- Nobody can do anything: no letter is under way, every task waits for something that has not
come, and no task has to turn to its fallback. -/
structure Quiet (s : Hub) : Prop where
  letters : s.letters = []
  stuck : ∀ t ∈ s.tasks, ∃ action next, t.routine = .act action next ∧
    (∀ r, action ≠ .ask r) ∧ (s.step t.id action next).2 = none
  settled : ∀ t ∈ s.tasks, ∀ f, t.fallback = some f → s.isCancelled f.1 = false

/-- There is nothing left to abort, or the body of the job was asked to stop. -/
def Dealt (s : Hub) (job : Nat) : Prop := .job job ∈ s.fired ∨ s.jobs.roll.Past job

end Hub

end Switchboard
