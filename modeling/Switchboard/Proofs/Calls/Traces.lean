import Switchboard.Calls.Dispatch

namespace Switchboard

abbrev Trace := List (Sigma Action.Reply)

namespace Routine

variable {α γ : Type} {tr : Trace}

/-- A routine can run so, whatever surrounds it: it ends with a value or with a panic that nobody
has caught. -/
def Runs : Routine α → Trace → Except PanicPayload α → Prop
  | done a, tr, e => tr = [] ∧ e = .ok a
  | act action next, tr, e => (∃ p, action = .panic p ∧ tr = [] ∧ e = .error p) ∨
      ∃ reply rest, tr = ⟨action, reply⟩ :: rest ∧ (next reply).Runs rest e

theorem runs_pure {a : α} {e : Except PanicPayload α} :
    (pure a : Routine α).Runs tr e ↔ tr = [] ∧ e = .ok a := Iff.rfl

theorem runs_ask_bind {action : Action} {f : action.Reply → Routine γ}
    {e : Except PanicPayload γ} (hp : ∀ p, action ≠ .panic p) :
    (ask action >>= f).Runs tr e ↔
      ∃ reply rest, tr = ⟨action, reply⟩ :: rest ∧ (f reply).Runs rest e := by
  constructor
  · rintro (⟨p, heq, -⟩ | h)
    · exact absurd heq (hp p)
    · exact h
  · exact .inr

theorem runs_log_bind {level : LogLevel} {text : String} {f : Unit → Routine γ}
    {e : Except PanicPayload γ} : (log level text >>= f).Runs tr e ↔
      ∃ rest, tr = ⟨.log ⟨level, text⟩, ()⟩ :: rest ∧ (f ()).Runs rest e := by
  constructor
  · intro h
    obtain ⟨⟨⟩, rest, htr, hrest⟩ := (runs_ask_bind (by simp)).mp h
    exact ⟨rest, htr, hrest⟩
  · rintro ⟨rest, htr, hrest⟩
    exact (runs_ask_bind (by simp)).mpr ⟨(), rest, htr, hrest⟩

/-- A sequence runs as its parts do, unless the first part panics. -/
theorem runs_bind {r : Routine α} {f : α → Routine γ} {e : Except PanicPayload γ} :
    (r >>= f).Runs tr e ↔ (∃ p, r.Runs tr (.error p) ∧ e = .error p) ∨
      ∃ a tr₁ tr₂, tr = tr₁ ++ tr₂ ∧ r.Runs tr₁ (.ok a) ∧ (f a).Runs tr₂ e := by
  induction r generalizing tr with
  | done a =>
    constructor
    · intro h
      exact .inr ⟨a, [], tr, rfl, ⟨rfl, rfl⟩, h⟩
    · rintro (⟨p, ⟨-, he⟩, -⟩ | ⟨a', tr₁, tr₂, rfl, ⟨rfl, ha⟩, h⟩)
      · cases he
      · cases ha
        exact h
  | act action next ih =>
    constructor
    · rintro (⟨p, hp, htr, he⟩ | ⟨reply, rest, rfl, h⟩)
      · exact .inl ⟨p, .inl ⟨p, hp, htr, rfl⟩, he⟩
      · rcases (ih reply).mp h with ⟨p, hr, he⟩ | ⟨a, tr₁, tr₂, rfl, hr, hf⟩
        · exact .inl ⟨p, .inr ⟨reply, rest, rfl, hr⟩, he⟩
        · exact .inr ⟨a, ⟨action, reply⟩ :: tr₁, tr₂, rfl, .inr ⟨reply, tr₁, rfl, hr⟩, hf⟩
    · rintro (⟨p, hr, he⟩ | ⟨a, tr₁, tr₂, rfl, hr, hf⟩)
      · rcases hr with ⟨p', hp, htr, hpe⟩ | ⟨reply, rest, rfl, hr⟩
        · cases hpe
          exact .inl ⟨p, hp, htr, he⟩
        · exact .inr ⟨reply, rest, rfl, (ih reply).mpr (.inl ⟨p, hr, he⟩)⟩
      · rcases hr with ⟨p, -, -, hpe⟩ | ⟨reply, rest, rfl, hr⟩
        · cases hpe
        · exact .inr ⟨reply, rest ++ tr₂, rfl, (ih reply).mpr (.inr ⟨a, rest, tr₂, rfl, hr, hf⟩)⟩

theorem runs_map {r : Routine α} {f : α → γ} {e : Except PanicPayload γ} :
    (r >>= fun a => pure (f a)).Runs tr e ↔ ∃ e', r.Runs tr e' ∧ e = e'.map f := by
  rw [runs_bind]
  constructor
  · rintro (⟨p, hr, rfl⟩ | ⟨a, tr₁, tr₂, rfl, hr, hdone⟩)
    · exact ⟨_, hr, rfl⟩
    · obtain ⟨rfl, rfl⟩ := runs_pure.mp hdone
      rw [List.append_nil]
      exact ⟨_, hr, rfl⟩
  · rintro ⟨e', hr, rfl⟩
    cases e' with
    | error p => exact .inl ⟨p, hr, rfl⟩
    | ok a => exact .inr ⟨a, tr, [], (List.append_nil tr).symm, hr, runs_pure.mpr ⟨rfl, rfl⟩⟩

theorem attempt_act {action : Action} {next : action.Reply → Routine α}
    (hp : ∀ p, action ≠ .panic p) :
    (act action next).attempt = act action fun reply => (next reply).attempt := by
  cases action with
  | panic p => exact absurd rfl (hp p)
  | _ => rfl

/-- A routine whose panics are caught ends with what it ends with otherwise. -/
theorem runs_attempt {r : Routine α} {e : Except PanicPayload (Except PanicPayload α)} :
    r.attempt.Runs tr e ↔ ∃ e', r.Runs tr e' ∧ e = .ok e' := by
  induction r generalizing tr with
  | done a =>
    constructor
    · rintro ⟨htr, he⟩
      exact ⟨.ok a, ⟨htr, rfl⟩, he⟩
    · rintro ⟨e', ⟨htr, rfl⟩, he⟩
      exact ⟨htr, he⟩
  | act action next ih =>
    by_cases hp : ∃ p, action = .panic p
    · obtain ⟨p, rfl⟩ := hp
      constructor
      · rintro ⟨htr, he⟩
        exact ⟨.error p, .inl ⟨p, rfl, htr, rfl⟩, he⟩
      · rintro ⟨e', ⟨p', hp, htr, rfl⟩ | ⟨reply, -⟩, he⟩
        · cases hp
          exact ⟨htr, he⟩
        · cases reply
    · have hp' : ∀ p, action ≠ .panic p := fun p heq => hp ⟨p, heq⟩
      rw [attempt_act hp']
      constructor
      · rintro (⟨p, heq, -⟩ | ⟨reply, rest, rfl, h⟩)
        · exact absurd heq (hp' p)
        · obtain ⟨e', hr, he⟩ := (ih reply).mp h
          exact ⟨e', .inr ⟨reply, rest, rfl, hr⟩, he⟩
      · rintro ⟨e', ⟨p, heq, -⟩ | ⟨reply, rest, rfl, hr⟩, he⟩
        · exact absurd heq (hp' p)
        · exact .inr ⟨reply, rest, rfl, (ih reply).mpr ⟨e', hr, he⟩⟩

end Routine

end Switchboard
