import Switchboard.Proofs.Jobs.Changes

namespace Switchboard

/-- The next number, and the snapshots by their numbers. -/
structure JobRoll where
  next : Nat
  job : Nat → Option JobSnapshot

namespace JobRoll

def write (r : JobRoll) (s : JobSnapshot) : JobRoll :=
  { r with job := fun id => if id = s.id then some s else r.job id }

def enter (r : JobRoll) (s : JobSnapshot) : JobRoll := { r.write s with next := r.next + 1 }

def erase (r : JobRoll) (id : Nat) : JobRoll :=
  { r with job := fun j => if j = id then none else r.job j }

def Bounded (r : JobRoll) : Prop := ∀ id s, r.job id = some s → s.id = id ∧ id < r.next

namespace Bounded

variable {r : JobRoll} {s s' : JobSnapshot} {id : Nat}

theorem fresh (h : r.Bounded) (hid : r.next ≤ id) : r.job id = none := by
  cases hjob : r.job id with
  | none => rfl
  | some s =>
    have hlt := (h id s hjob).2
    omega

theorem write (h : r.Bounded) (hs : r.job s.id = some s) (hid : s'.id = s.id) :
    (r.write s').Bounded := by
  intro id x hx
  simp only [JobRoll.write] at hx ⊢
  split at hx
  next heq =>
    cases hx
    exact ⟨heq.symm, by rw [heq, hid]; exact (h _ _ hs).2⟩
  next => exact h id x hx

theorem enter (h : r.Bounded) (hid : s.id = r.next) : (r.enter s).Bounded := by
  intro id x hx
  simp only [JobRoll.enter, JobRoll.write] at hx ⊢
  split at hx
  next heq =>
    cases hx
    exact ⟨heq.symm, by omega⟩
  next =>
    obtain ⟨hxid, hlt⟩ := h id x hx
    exact ⟨hxid, Nat.lt_succ_of_lt hlt⟩

theorem erase (h : r.Bounded) (id : Nat) : (r.erase id).Bounded := by
  intro j x hx
  simp only [JobRoll.erase] at hx ⊢
  split at hx
  next => cases hx
  next => exact h j x hx

end Bounded

end JobRoll

namespace JobSnapshot

def event (s : JobSnapshot) (type : EventType) : Event :=
  ⟨type, jobsCollection, some (.nat s.id), s.toJson⟩

def tidings (s : JobSnapshot) (type : EventType) : List Event :=
  if s.transient then [] else [s.event type]

theorem mem_tidings {s : JobSnapshot} {type : EventType} {e : Event} (h : e ∈ s.tidings type) :
    e = s.event type ∧ s.transient = false := by
  unfold tidings at h
  cases ht : s.transient <;> simp_all

/-- Two snapshots agree in all that is settled when a job is taken in. -/
structure SameJob (s s' : JobSnapshot) : Prop where
  id : s'.id = s.id
  method : s'.method = s.method
  arguments : s'.arguments = s.arguments
  lock : s'.lock = s.lock
  description : s'.description = s.description
  abortable : s'.abortable = s.abortable
  transient : s'.transient = s.transient
  timeCreated : s'.timeCreated = s.timeCreated

theorem SameJob.trans {s s' s'' : JobSnapshot} (h : s.SameJob s') (h' : s'.SameJob s'') :
    s.SameJob s'' where
  id := h'.id.trans h.id
  method := h'.method.trans h.method
  arguments := h'.arguments.trans h.arguments
  lock := h'.lock.trans h.lock
  description := h'.description.trans h.description
  abortable := h'.abortable.trans h.abortable
  transient := h'.transient.trans h.transient
  timeCreated := h'.timeCreated.trans h.timeCreated

/-- What can become of a snapshot while the table has it: its state moves on, or it runs and makes
progress. -/
structure Becomes (s s' : JobSnapshot) : Prop extends SameJob s s' where
  step : s.state.canBecome s'.state = true ∨
    s.state = .running ∧ s' = { s with progress := s'.progress }

variable {s s' : JobSnapshot}

theorem Becomes.state (h : s.Becomes s') : s'.state = s.state ∨ s.state.canBecome s'.state = true := by
  rcases h.step with hcan | ⟨-, heq⟩
  · exact .inr hcan
  · rw [heq]
    exact .inl rfl

theorem Becomes.unfinished (h : s.Becomes s') : s.state.isTerminal = false := by
  rcases h.step with hcan | ⟨hrun, -⟩
  · cases hstate : s.state with
    | waiting | running => rfl
    | success | failed | aborted => simp [hstate, JobState.canBecome] at hcan
  · simp [hrun, JobState.isTerminal]

end JobSnapshot

/-- The events tell how one roll has become another, but nothing of the transient jobs. -/
inductive Narrates : JobRoll → List Event → JobRoll → Prop where
  | nothing (r : JobRoll) : Narrates r [] r
  | entered {r r' : JobRoll} {events : List Event} (h : Narrates r events r') (s : JobSnapshot)
      (hid : s.id = r'.next) (hstate : s.state = .waiting) :
      Narrates r (events ++ s.tidings .added) (r'.enter s)
  | changed {r r' : JobRoll} {events : List Event} (h : Narrates r events r') (s s' : JobSnapshot)
      (hs : r'.job s.id = some s) (hs' : s.Becomes s') :
      Narrates r (events ++ s'.tidings .changed) (r'.write s')
  | removed {r r' : JobRoll} {events : List Event} (h : Narrates r events r') (s : JobSnapshot)
      (hs : r'.job s.id = some s) : Narrates r (events ++ s.tidings .removed) (r'.erase s.id)

namespace Narrates

variable {r r' : JobRoll} {events : List Event} {id : Nat}

theorem next_le (h : Narrates r events r') : r.next ≤ r'.next := by
  induction h with
  | nothing => exact Nat.le_refl _
  | entered _ _ _ _ ih => exact Nat.le_succ_of_le ih
  | changed _ _ _ _ _ ih | removed _ _ _ ih => exact ih

theorem bounded (h : Narrates r events r') (hr : r.Bounded) : r'.Bounded := by
  induction h with
  | nothing => exact hr
  | entered _ _ hid _ ih => exact ih.enter hid
  | changed _ _ _ hs hs' ih => exact ih.write hs hs'.id
  | removed _ s _ ih => exact ih.erase s.id

/-- What is gone stays gone: no number is given twice. -/
theorem gone (h : Narrates r events r') (hid : id < r.next) (hnone : r.job id = none) :
    r'.job id = none := by
  induction h with
  | nothing => exact hnone
  | entered h s hs _ ih =>
    have hle := h.next_le
    exact (if_neg (by omega)).trans ih
  | changed _ s s' hs hs' ih =>
    refine (if_neg fun heq => ?_).trans ih
    rw [heq, hs'.id, hs] at ih
    cases ih
  | removed _ s _ ih => simp only [JobRoll.erase, ih, ite_self]

theorem lasts (h : Narrates r events r') {P : JobSnapshot → Prop}
    (hP : ∀ s s', s.Becomes s' → P s → P s') (hid : id < r.next)
    (hr : ∀ s, r.job id = some s → P s) : ∀ s, r'.job id = some s → P s := by
  induction h with
  | nothing => exact hr
  | entered h s hs _ ih =>
    have hle := h.next_le
    intro x hx
    exact ih x ((if_neg (by omega)).symm.trans hx)
  | changed _ s s' hs hs' ih =>
    intro x hx
    simp only [JobRoll.write] at hx
    split at hx
    next heq =>
      cases hx
      exact hP s s' hs' (ih s (by rw [heq, hs'.id, hs]))
    next => exact ih x hx
  | removed _ s _ ih =>
    intro x hx
    simp only [JobRoll.erase] at hx
    split at hx
    next => cases hx
    next => exact ih x hx

end Narrates

namespace JobEffect

variable {β : Type}

def IsAside : JobEffect β → Prop
  | .publish _ | .reveal _ | .conceal _ => False
  | _ => True

def event? : JobEffect β → Option Event
  | .publish e => some e
  | _ => none

def stop? : JobEffect β → Option Nat
  | .cancel id => some id
  | _ => none

end JobEffect

section Effects

variable {β : Type}

def eventsOf (effects : List (JobEffect β)) : List Event := effects.filterMap JobEffect.event?

def stopsOf (effects : List (JobEffect β)) : List Nat := effects.filterMap JobEffect.stop?

theorem eventsOf_append (effects more : List (JobEffect β)) :
    eventsOf (effects ++ more) = eventsOf effects ++ eventsOf more := List.filterMap_append

theorem stopsOf_append (effects more : List (JobEffect β)) :
    stopsOf (effects ++ more) = stopsOf effects ++ stopsOf more := List.filterMap_append

@[simp] theorem eventsOf_publish (events : List Event) :
    eventsOf (events.map .publish : List (JobEffect β)) = events := by
  induction events with
  | nil => rfl
  | cons e rest ih => exact congrArg (e :: ·) ih

@[simp] theorem stopsOf_publish (events : List Event) :
    stopsOf (events.map .publish : List (JobEffect β)) = [] := by
  induction events with
  | nil => rfl
  | cons e rest ih => exact ih

@[simp] theorem eventsOf_reveal (s : JobSnapshot) (effects : List (JobEffect β)) :
    eventsOf (.reveal s :: effects) = eventsOf effects := rfl

@[simp] theorem stopsOf_reveal (s : JobSnapshot) (effects : List (JobEffect β)) :
    stopsOf (.reveal s :: effects) = stopsOf effects := rfl

@[simp] theorem eventsOf_conceal (id : Nat) : eventsOf [(.conceal id : JobEffect β)] = [] := rfl

@[simp] theorem stopsOf_conceal (id : Nat) : stopsOf [(.conceal id : JobEffect β)] = [] := rfl

theorem eventsOf_aside {e : JobEffect β} (h : e.IsAside) : eventsOf [e] = [] := by
  cases e with
  | publish e => exact h.elim
  | _ => rfl

/-- The effects recount, in order, how one roll has become another. -/
inductive Recounts : JobRoll → List (JobEffect β) → JobRoll → Prop where
  | nothing (r : JobRoll) : Recounts r [] r
  | aside {r r' : JobRoll} {effects : List (JobEffect β)} (h : Recounts r effects r')
      (e : JobEffect β) (he : e.IsAside) : Recounts r (effects ++ [e]) r'
  | entered {r r' : JobRoll} {effects : List (JobEffect β)} (h : Recounts r effects r')
      (s : JobSnapshot) (hid : s.id = r'.next) (hstate : s.state = .waiting) :
      Recounts r (effects ++ .reveal s :: (s.tidings .added).map .publish) (r'.enter s)
  | changed {r r' : JobRoll} {effects : List (JobEffect β)} (h : Recounts r effects r')
      (s s' : JobSnapshot) (hs : r'.job s.id = some s) (hs' : s.Becomes s') :
      Recounts r (effects ++ .reveal s' :: (s'.tidings .changed).map .publish) (r'.write s')
  | removed {r r' : JobRoll} {effects : List (JobEffect β)} (h : Recounts r effects r')
      (s : JobSnapshot) (hs : r'.job s.id = some s) :
      Recounts r (effects ++ ((s.tidings .removed).map .publish ++ [.conceal s.id]))
        (r'.erase s.id)
  | absent {r r' : JobRoll} {effects : List (JobEffect β)} (h : Recounts r effects r') (id : Nat)
      (hid : id < r'.next) (hnone : r'.job id = none) : Recounts r (effects ++ [.conceal id]) r'

namespace Recounts

variable {r r' r'' : JobRoll} {effects more : List (JobEffect β)}

theorem append (h : Recounts r effects r') (h' : Recounts r' more r'') :
    Recounts r (effects ++ more) r'' := by
  induction h' with
  | nothing => rwa [List.append_nil]
  | aside _ e he ih => exact List.append_assoc .. ▸ ih.aside e he
  | entered _ s hid hstate ih => exact List.append_assoc .. ▸ ih.entered s hid hstate
  | changed _ s s' hs hs' ih => exact List.append_assoc .. ▸ ih.changed s s' hs hs'
  | removed _ s hs ih => exact List.append_assoc .. ▸ ih.removed s hs
  | absent _ id hid hnone ih => exact List.append_assoc .. ▸ ih.absent id hid hnone

theorem narrates (h : Recounts r effects r') : Narrates r (eventsOf effects) r' := by
  induction h with
  | nothing => exact .nothing _
  | aside _ e he ih => rwa [eventsOf_append, eventsOf_aside he, List.append_nil]
  | entered _ s hid hstate ih =>
    rw [eventsOf_append, eventsOf_reveal, eventsOf_publish]
    exact ih.entered s hid hstate
  | changed _ s s' hs hs' ih =>
    rw [eventsOf_append, eventsOf_reveal, eventsOf_publish]
    exact ih.changed s s' hs hs'
  | removed _ s hs ih =>
    rw [eventsOf_append, eventsOf_append, eventsOf_publish, eventsOf_conceal, List.append_nil]
    exact ih.removed s hs
  | absent _ id _ _ ih => rwa [eventsOf_append, eventsOf_conceal, List.append_nil]

end Recounts

end Effects

end Switchboard
