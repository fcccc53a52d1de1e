import Mathlib.Logic.Relation
import Switchboard.Proofs.Jobs.Sound

namespace Switchboard

def JobReport.finished? : JobReport → Option Nat
  | .finished id _ => some id
  | _ => none

structure Workshop (β : Type) where
  table : JobTable β
  atWork : List Nat := []
  mail : List JobReport := []
  taken : List (Nat × NewJob β) := []
  started : List (Nat × β) := []

namespace Workshop

variable {β : Type} {w w' : Workshop β} {id now : Nat}

def adopt (w : Workshop β) (t : JobTable β) : Workshop β :=
  { w with
    table := { t with effects := [] }
    atWork := w.atWork ++ t.starts.map Prod.fst
    started := w.started ++ t.starts }

def submit (w : Workshop β) (now : Nat) (job : NewJob β) : Workshop β :=
  let taken := if (w.table.standIn? job).isNone then [(w.table.nextId, job)] else []
  { w with taken := w.taken ++ taken }.adopt (w.table.submit now job).1

def abort (w : Workshop β) (now id : Nat) : Workshop β := w.adopt (w.table.abort now id).1

def send (w : Workshop β) (r : JobReport) : Workshop β := { w with mail := w.mail ++ [r] }

def endBody (w : Workshop β) (id : Nat) (outcome : Except CallError Json) : Workshop β :=
  { w with atWork := w.atWork.erase id }.send (.finished id outcome)

def handle (w : Workshop β) (now : Nat) (r : JobReport) (others : List JobReport) : Workshop β :=
  { w with mail := others }.adopt (w.table.report now r)

inductive Step : Workshop β → Workshop β → Prop where
  | submit (w : Workshop β) (now : Nat) (job : NewJob β) : Step w (w.submit now job)
  | abort (w : Workshop β) (now id : Nat) : Step w (w.abort now id)
  | look (w : Workshop β) : Step w w
  | progress (w : Workshop β) (id percent : Nat) (description : Option String) :
      Step w (w.send (.progressed id percent description))
  | endBody (w : Workshop β) (id : Nat) (outcome : Except CallError Json) (h : id ∈ w.atWork) :
      Step w (w.endBody id outcome)
  | timer (w : Workshop β) (id : Nat) : Step w (w.send (.lockTimedOut id))
  | handle (w : Workshop β) (now : Nat) (before after : List JobReport) (r : JobReport)
      (h : w.mail = before ++ r :: after) : Step w (w.handle now r (before ++ after))

def opened (maxRetained : Nat) : Workshop β := { table := { maxRetained } }

def Runs : Workshop β → Workshop β → Prop := Relation.ReflTransGen Step

def Reachable (maxRetained : Nat) (w : Workshop β) : Prop := Runs (opened maxRetained) w

def Asks (taken : List (Nat × NewJob β)) (lock : String) (id : Nat) : Prop :=
  ∃ job, (id, job) ∈ taken ∧ job.lock = some lock

/-- What was taken in and what was started, as far as the table knows of it. -/
structure Ledger (t : JobTable β) (taken : List (Nat × NewJob β)) (started : List (Nat × β)) :
    Prop where
  sorted : (taken.map Prod.fst).Pairwise (· < ·)
  numbered : ∀ j ∈ taken, j.1 < t.nextId
  running : ∀ lock id, t.Has .running lock id → ∃ job, (id, job) ∈ taken ∧ job.lock = lock
  waiting : ∀ id e, t.job? id = some e ∧ e.state = .waiting →
    ∃ job, (id, job) ∈ taken ∧ job.lock = e.snapshot.lock ∧ e.body = some job.body
  known : ∀ s ∈ started, ∃ job, (s.1, job) ∈ taken ∧ job.body = s.2
  begun : ∀ lock id, t.Has .running lock id → id ∈ started.map Prod.fst
  once : (started.map Prod.fst).Nodup
  gone : ∀ s ∈ started, ∀ lock, ¬ t.Has .waiting lock s.1
  inOrder : started.Pairwise fun s s' =>
    ∀ lock, Asks taken lock s.1 → Asks taken lock s'.1 → s.1 < s'.1
  ahead : ∀ s ∈ started, ∀ lock id, Asks taken lock s.1 → t.Has .waiting (some lock) id → s.1 < id

/-- The jobs that still owe a report of their end are those that run, but for some that have just
ended. -/
structure Owes (t : JobTable β) (owed ended : List Nat) : Prop where
  nodup : owed.Nodup
  running : ∀ id, id ∈ owed ↔ (∃ lock, t.Has .running lock id) ∧ id ∉ ended

/-- The jobs whose end was not yet handled: their bodies are at work or have just reported. -/
def owed (w : Workshop β) : List Nat := w.atWork ++ w.mail.filterMap JobReport.finished?

structure Sound (w : Workshop β) : Prop where
  table : w.table.Sound
  settled : w.table.effects = []
  ledger : Ledger w.table w.taken w.started
  owes : Owes w.table w.owed []

theorem sound_opened (maxRetained : Nat) : (opened maxRetained : Workshop β).Sound := by
  have hjob : ∀ j, ({ maxRetained } : JobTable β).job? j = none := fun _ => rfl
  refine ⟨JobTable.sound_empty maxRetained, rfl, ?_, ?_, ?_⟩
  · constructor <;> simp [opened, JobTable.Has, hjob]
  · simp [opened, owed]
  · simp [opened, owed, JobTable.Has, hjob]

end Workshop

end Switchboard
