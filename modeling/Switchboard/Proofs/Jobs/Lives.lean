import Mathlib.Data.List.Chain
import Switchboard.Proofs.Jobs.Endings
import Switchboard.Proofs.Jobs.Roll

namespace Switchboard

section Lives

variable {β : Type}

/-- The snapshots that are shown of a job. -/
def shownOf (id : Nat) (effects : List (JobEffect β)) : List JobSnapshot :=
  (effects.filterMap JobEffect.revealed?).filter fun s => s.id = id

theorem shownOf_append (id : Nat) (effects more : List (JobEffect β)) :
    shownOf id (effects ++ more) = shownOf id effects ++ shownOf id more := by
  simp [shownOf]

theorem shownOf_aside (id : Nat) {e : JobEffect β} (h : e.IsAside) : shownOf id [e] = [] := by
  cases e with
  | reveal s => exact h.elim
  | _ => rfl

theorem shownOf_publish (id : Nat) (events : List Event) :
    shownOf id (events.map .publish : List (JobEffect β)) = [] := by
  induction events with
  | nil => rfl
  | cons e rest ih => exact ih

theorem shownOf_reveal (id : Nat) (s : JobSnapshot) (events : List Event) :
    shownOf id (.reveal s :: events.map .publish : List (JobEffect β)) =
      if s.id = id then [s] else [] := by
  have hsplit : shownOf id (.reveal s :: events.map .publish : List (JobEffect β)) =
      shownOf id [(.reveal s : JobEffect β)] ++
        shownOf id (events.map .publish : List (JobEffect β)) := shownOf_append id [.reveal s] _
  rw [hsplit, shownOf_publish, List.append_nil]
  by_cases heq : s.id = id <;> simp [shownOf, JobEffect.revealed?, heq]

theorem shownOf_conceal (id other : Nat) : shownOf id [(.conceal other : JobEffect β)] = [] := rfl

end Lives

/-- What is shown of a job while one roll becomes another. -/
structure Fares (r r' : JobRoll) (id : Nat) (shown : List JobSnapshot) : Prop where
  moves : ((r.job id).toList ++ shown).IsChain JobSnapshot.Becomes
  begins : r.job id = none → ∀ s ∈ shown.head?, r.next ≤ id ∧ s.state = .waiting
  now : r'.job id = none ∨ r'.job id = ((r.job id).toList ++ shown).getLast?
  later : r'.next ≤ id → shown = []

namespace Fares

variable {r r' : JobRoll} {id : Nat} {shown : List JobSnapshot} {s s' : JobSnapshot}

theorem refl (r : JobRoll) (id : Nat) : Fares r r id [] where
  moves := by cases r.job id <;> simp
  begins _ s hs := by simp at hs
  now := by cases r.job id <;> simp
  later _ := rfl

theorem elsewhere (h : Fares r r' id shown) {r'' : JobRoll} (hnext : r'.next ≤ r''.next)
    (hjob : r''.job id = none ∨ r''.job id = r'.job id) : Fares r r'' id shown where
  moves := h.moves
  begins := h.begins
  now := hjob.elim .inl fun heq => heq ▸ h.now
  later hle := h.later (Nat.le_trans hnext hle)

theorem enter (h : Fares r r' id shown) (hr : r.Bounded) (hnext : r.next ≤ r'.next)
    (hid : s.id = r'.next) (hstate : s.state = .waiting) (heq : s.id = id) :
    Fares r (r'.enter s) id (shown ++ [s]) := by
  have hnone : r.job id = none := hr.fresh (by omega)
  have hnil : shown = [] := h.later (by omega)
  subst hnil
  refine ⟨by simp [hnone], fun _ x hx => ?_, .inr ?_, fun hle => ?_⟩
  · cases Option.some.inj hx
    exact ⟨by omega, hstate⟩
  · simp [hnone, JobRoll.enter, JobRoll.write, heq]
  · have hlt : r'.next + 1 ≤ id := hle
    omega

theorem change (h : Fares r r' id shown) (hr' : r'.Bounded) (hs : r'.job id = some s)
    (hs' : s.Becomes s') : Fares r (r'.write s') id (shown ++ [s']) := by
  have hid : s'.id = id := hs'.id.trans (hr' id s hs).1
  have hlast : ((r.job id).toList ++ shown).getLast? = some s := by
    rcases h.now with hnone | hlast
    · rw [hs] at hnone
      cases hnone
    · exact hlast.symm.trans hs
  refine ⟨?_, fun hnone x hx => ?_, .inr ?_, fun hle => ?_⟩
  · rw [← List.append_assoc, List.isChain_append]
    refine ⟨h.moves, List.isChain_singleton _, fun x hx y hy => ?_⟩
    cases Option.some.inj (hlast.symm.trans hx)
    cases Option.some.inj hy
    exact hs'
  · -- something was shown before, since the job is there now and was not then
    refine h.begins hnone x ?_
    rw [hnone, Option.toList_none, List.nil_append] at hlast
    rwa [List.head?_append_of_ne_nil _ (by rintro rfl; cases hlast)] at hx
  · rw [← List.append_assoc, List.getLast?_append]
    simp [JobRoll.write, hid]
  · have hlt := (hr' id s hs).2
    have hle' : r'.next ≤ id := hle
    omega

/-- Nothing more is shown of a job that has ended, and the roll keeps the end or forgets it. -/
theorem of_ended (h : Fares r r' id shown) (hs : r.job id = some s)
    (hend : s.state.isTerminal = true) :
    shown = [] ∧ (r'.job id = none ∨ r'.job id = some s) := by
  have hmoves := h.moves
  have hnow := h.now
  cases shown with
  | nil =>
    refine ⟨rfl, ?_⟩
    simpa [hs] using hnow
  | cons x rest =>
    rw [hs] at hmoves
    have hstep : s.Becomes x := (List.isChain_cons_cons.mp hmoves).1
    have hopen := hstep.unfinished
    rw [hend] at hopen
    cases hopen

theorem of_gone (h : Fares r r' id shown) (hid : id < r.next) (hnone : r.job id = none) :
    shown = [] ∧ r'.job id = none := by
  have hnow := h.now
  cases shown with
  | nil => exact ⟨rfl, by simpa [hnone] using hnow⟩
  | cons x rest =>
    have hle := (h.begins hnone x rfl).1
    omega

end Fares

theorem Recounts.fares {β : Type} {r r' : JobRoll} {effects : List (JobEffect β)}
    (h : Recounts r effects r') (hr : r.Bounded) (id : Nat) :
    Fares r r' id (shownOf id effects) := by
  induction h with
  | nothing => exact .refl r id
  | aside _ e he ih => rwa [shownOf_append, shownOf_aside id he, List.append_nil]
  | @entered r' _ h s hid hstate ih =>
    rw [shownOf_append, shownOf_reveal]
    split
    next heq => exact ih.enter hr h.narrates.next_le hid hstate heq
    next hne =>
      rw [List.append_nil]
      exact ih.elsewhere (Nat.le_succ _) (.inr (if_neg (Ne.symm hne)))
  | changed h s s' hs hs' ih =>
    rw [shownOf_append, shownOf_reveal]
    split
    next heq => exact ih.change (h.narrates.bounded hr) (heq ▸ hs'.id ▸ hs) hs'
    next hne =>
      rw [List.append_nil]
      exact ih.elsewhere (Nat.le_refl _) (.inr (if_neg (Ne.symm hne)))
  | removed _ s hs ih =>
    rw [shownOf_append, shownOf_append, shownOf_publish, shownOf_conceal, List.append_nil,
      List.append_nil]
    refine ih.elsewhere (Nat.le_refl _) ?_
    by_cases heq : id = s.id
    · exact .inl (if_pos heq)
    · exact .inr (if_neg heq)
  | absent _ other _ _ ih => rwa [shownOf_append, shownOf_conceal, List.append_nil]

end Switchboard
