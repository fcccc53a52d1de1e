import Mathlib.Data.List.Nodup
import Switchboard.Jobs.Table

namespace Switchboard

theorem lookup_filter_ne {κ α : Type} [DecidableEq κ] (l : List (κ × α)) (name other : κ) :
    (l.filter fun q => q.1 != name).lookup other =
      if other = name then none else l.lookup other := by
  induction l with
  | nil => simp
  | cons q rest ih =>
    obtain ⟨key, a⟩ := q
    by_cases hk : key = name
    · subst hk
      rw [List.filter_cons_of_neg (by simp), ih]
      by_cases ho : other = key
      · simp [ho]
      · simp [ho, List.lookup_cons, beq_false_of_ne ho]
    · rw [List.filter_cons_of_pos (by simpa using hk)]
      by_cases ho : other = key
      · simp [ho, hk]
      · simp [List.lookup_cons, beq_false_of_ne ho, ih]

theorem eq_nil_of_lookup_none {α : Type} {l : List (String × α)}
    (h : ∀ name, l.lookup name = none) : l = [] := by
  cases l with
  | nil => rfl
  | cons q rest => simpa using h q.1

def JobEffect.started? {β : Type} : JobEffect β → Option (Nat × β)
  | .start id _ body => some (id, body)
  | _ => none

namespace JobTable

variable {β : Type} {t : JobTable β} {id : Nat} {e : JobEntry β}

def ids (t : JobTable β) : List Nat := t.jobs.map JobEntry.id

def starts (t : JobTable β) : List (Nat × β) := t.effects.filterMap JobEffect.started?

theorem job?_id (h : t.job? id = some e) : e.id = id := by
  simpa using List.find?_some h

theorem job?_eq_none_iff : t.job? id = none ↔ id ∉ t.ids := by
  simp [job?, ids]

theorem snapshot?_eq (h : t.job? id = some e) : t.snapshot? id = some e.snapshot := by
  simp [snapshot?, h]

/-- The table with more to be done. -/
def wants (t : JobTable β) (effects : List (JobEffect β)) : JobTable β :=
  { t with effects := t.effects ++ effects }

def news (t : JobTable β) (id : Nat) (type : EventType) : List (JobEffect β) :=
  match t.snapshot? id with
  | none => []
  | some s =>
    if s.transient then [] else [.publish ⟨type, jobsCollection, some (.nat id), s.toJson⟩]

theorem want_eq (t : JobTable β) (effect : JobEffect β) : t.want effect = t.wants [effect] := rfl

theorem log_eq (t : JobTable β) (level : LogLevel) (text : String) :
    t.log level text = t.wants [.log ⟨level, text⟩] := rfl

theorem publish_eq (t : JobTable β) (id : Nat) (type : EventType) :
    t.publish id type = t.wants (t.news id type) := by
  cases hs : t.snapshot? id with
  | none => simp [publish, news, wants, hs]
  | some s => cases ht : s.transient <;> simp [publish, news, wants, want, hs, ht]

theorem filterMap_started?_news (t : JobTable β) (id : Nat) (type : EventType) :
    (t.news id type).filterMap JobEffect.started? = [] := by
  unfold news
  split
  next => rfl
  next => split <;> rfl

section Wants

variable (t) (effects : List (JobEffect β))

@[simp] theorem job?_wants (j : Nat) : (t.wants effects).job? j = t.job? j := rfl

@[simp] theorem snapshot?_wants (j : Nat) : (t.wants effects).snapshot? j = t.snapshot? j := rfl

@[simp] theorem queue?_wants (lock : String) : (t.wants effects).queue? lock = t.queue? lock := rfl

@[simp] theorem ids_wants : (t.wants effects).ids = t.ids := rfl

@[simp] theorem locks_wants : (t.wants effects).locks = t.locks := rfl

@[simp] theorem finished_wants : (t.wants effects).finished = t.finished := rfl

@[simp] theorem nextId_wants : (t.wants effects).nextId = t.nextId := rfl

@[simp] theorem maxRetained_wants : (t.wants effects).maxRetained = t.maxRetained := rfl

@[simp] theorem starts_wants :
    (t.wants effects).starts = t.starts ++ effects.filterMap JobEffect.started? := by
  simp [wants, starts]

end Wants

theorem queue?_dropQueue (t : JobTable β) (lock other : String) :
    (t.dropQueue lock).queue? other = if other = lock then none else t.queue? other :=
  lookup_filter_ne t.locks lock other

theorem queue?_setQueue (t : JobTable β) (lock other : String) (q : LockQueue) :
    (t.setQueue lock q).queue? other = if other = lock then some q else t.queue? other := by
  have hdrop := queue?_dropQueue t lock other
  unfold queue? at hdrop
  by_cases ho : other = lock
  · simp [setQueue, queue?, ho]
  · simpa [setQueue, queue?, List.lookup_cons, beq_false_of_ne ho, ho] using hdrop

end JobTable

end Switchboard
