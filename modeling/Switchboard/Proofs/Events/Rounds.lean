import Mathlib.Data.List.Induction
import Switchboard.Events.Subscription

namespace Switchboard.Subscription

variable {s origin : Subscription} {r : Round} {e : Event}

/-- What can happen to a subscription: what its loop does and what its subscriber does. -/
inductive Move where
  | begin
  | conclude (r : Round)
  | push
  | giveUp
  | wake (elapsed : Bool)
  | take
  | cancel
  | drop

namespace Move

def produced? : Move → Option Json
  | conclude (.payload v) => some v
  | _ => none

def isFailure : Move → Bool
  | conclude (.failed _) => true
  | _ => false

def cancels : Move → Bool
  | cancel | drop => true
  | _ => false

end Move

def pending (s : Subscription) : List Event :=
  match s.phase with
  | .sending e => [e]
  | _ => []

def event (s : Subscription) (fields : Json) : Event := ⟨s.eventType, s.source, none, fields⟩

def giveUp (s : Subscription) : Subscription :=
  match s.phase with
  | .sending _ | .resting => if s.cancelled then s.stop else s
  | _ => s

def does (s : Subscription) : Move → Subscription
  | .begin => s.begin
  | .conclude r => s.conclude r
  | .push => s.push
  | .giveUp => s.giveUp
  | .wake elapsed => s.wake elapsed
  | .take => (s.take?).elim s Prod.snd
  | .cancel => s.cancel
  | .drop => s.drop

def plays (s : Subscription) (moves : List Move) : Subscription := moves.foldl does s

def receivedIn (s : Subscription) : Move → List Event
  | .take => ((s.take?).map Prod.fst).toList
  | _ => []

def abandonedIn (s : Subscription) : Move → List Event
  | .drop => s.queue
  | _ => []

/-- The event that was waiting for room when the rounds stopped. -/
def lostIn (s : Subscription) (m : Move) : List Event :=
  if (s.does m).isStopped then s.pending else []

def gather {α : Type} (f : Subscription → Move → List α) (s : Subscription) : List Move → List α
  | [] => []
  | m :: rest => f s m ++ gather f (s.does m) rest

def received : Subscription → List Move → List Event := gather receivedIn

def abandoned : Subscription → List Move → List Event := gather abandonedIn

def lost : Subscription → List Move → List Event := gather lostIn

def produced (moves : List Move) : List Json := moves.filterMap Move.produced?

/-- Rounds are concluded that have begun. -/
def Proper : Subscription → List Move → Prop
  | _, [] => True
  | s, m :: rest => (∀ r, m = .conclude r → s.phase = .working) ∧ Proper (s.does m) rest

def fresh (source : String) (eventType : EventType) (capacity : Nat) : Subscription :=
  { source, eventType, capacity }

theorem does_take_eq (s : Subscription) : s.does .take = { s with queue := s.queue.drop 1 } := by
  cases hqueue : s.queue with
  | nil =>
    simp only [does, take?, hqueue, List.drop_nil]
    rw [← hqueue]
    rfl
  | cons e rest => simp [does, take?, hqueue]

theorem plays_append (s : Subscription) (moves more : List Move) :
    s.plays (moves ++ more) = (s.plays moves).plays more := List.foldl_append

theorem gather_append {α : Type} (f : Subscription → Move → List α) (s : Subscription)
    (moves more : List Move) :
    gather f s (moves ++ more) = gather f s moves ++ gather f (s.plays moves) more := by
  induction moves generalizing s with
  | nil => rfl
  | cons m rest ih => rw [List.cons_append, gather, ih, gather, List.append_assoc]; rfl

theorem gather_singleton {α : Type} (f : Subscription → Move → List α) (s : Subscription)
    (m : Move) : gather f s [m] = f s m := List.append_nil _

theorem proper_append {moves more : List Move} :
    s.Proper (moves ++ more) ↔ s.Proper moves ∧ (s.plays moves).Proper more := by
  induction moves generalizing s with
  | nil => exact (iff_of_eq (true_and _)).symm
  | cons m rest ih =>
    rw [List.cons_append, Proper, Proper, ih, and_assoc]
    rfl

theorem proper_singleton {m : Move} :
    s.Proper [m] ↔ ∀ r, m = .conclude r → s.phase = .working := iff_of_eq (and_true _)

@[simp] theorem pending_stop (s : Subscription) : s.stop.pending = [] := rfl

theorem pending_of_isStopped (h : s.isStopped = true) : s.pending = [] := by
  unfold isStopped at h
  unfold pending
  cases hphase : s.phase <;> simp_all

/-- A move that touches neither what is queued nor what waits for room. -/
structure Still (s s' : Subscription) : Prop where
  same : s' = { s with phase := s'.phase, cancelled := s'.cancelled }
  pending : s'.pending = s.pending
  cancelled : s.cancelled = true → s'.cancelled = true
  stopped : s.isStopped = true → s'.isStopped = true

namespace Still

theorem refl (s : Subscription) : Still s s := ⟨rfl, rfl, id, id⟩

theorem begin (s : Subscription) : Still s s.begin := by
  unfold Subscription.begin
  split
  next hphase =>
    refine ⟨rfl, ?_, id, by simp [isStopped, hphase]⟩
    cases s.cancelled <;> simp [Subscription.pending, hphase]
  next => exact refl s

theorem wake (s : Subscription) (elapsed : Bool) : Still s (s.wake elapsed) := by
  unfold Subscription.wake
  split
  next hphase =>
    have hstopped : s.isStopped = true → False := by simp [isStopped, hphase]
    have hpending : s.pending = [] := by simp [Subscription.pending, hphase]
    split
    next => exact ⟨rfl, hpending.symm, id, fun h => (hstopped h).elim⟩
    next =>
      split
      next => exact ⟨rfl, hpending.symm, id, fun h => (hstopped h).elim⟩
      next => exact refl s
  next => exact refl s

theorem cancel (s : Subscription) : Still s s.cancel := ⟨rfl, rfl, fun _ => rfl, id⟩

theorem conclude (hproduced : (Move.conclude r).produced? = none) : Still s (s.conclude r) := by
  unfold Subscription.conclude
  split
  next hphase =>
    refine ⟨rfl, ?_, id, by simp [isStopped, hphase]⟩
    cases r with
    | payload fields => cases hproduced
    | _ => simp [Subscription.pending, hphase]
  next => exact refl s

end Still

theorem lostIn_of_pending {m : Move} (h : (s.does m).pending = s.pending) : s.lostIn m = [] := by
  unfold lostIn
  split
  next hstopped => rw [← h, pending_of_isStopped hstopped]
  next => rfl

theorem lostIn_of_going {m : Move} (h : (s.does m).isStopped = false) : s.lostIn m = [] := by
  rw [lostIn, h]
  rfl

theorem lostIn_stop {m : Move} (h : s.does m = s.stop) : s.lostIn m = s.pending := by
  rw [lostIn, h]
  rfl

/-- The books of a subscription: where everything is that its source has produced. -/
structure Books (origin s : Subscription) (produced : List Json)
    (received abandoned lost : List Event) : Prop where
  source : s.source = origin.source
  eventType : s.eventType = origin.eventType
  capacity : s.capacity = origin.capacity
  whole : produced.map origin.event = received ++ s.queue ++ abandoned ++ s.pending ++ lost
  room : s.queue.length + abandoned.length ≤ s.capacity
  single : lost ≠ [] → s.isStopped = true ∧ s.cancelled = true
  one : lost.length ≤ 1
  attended : s.attended = true → abandoned = []
  gone : s.attended = false → s.queue = [] ∧ s.cancelled = true

namespace Books

variable {made : List Json} {got left missed : List Event}

theorem fresh (source : String) (eventType : EventType) (capacity : Nat) :
    Books (.fresh source eventType capacity) (.fresh source eventType capacity) [] [] [] [] where
  source := rfl
  eventType := rfl
  capacity := rfl
  whole := rfl
  room := Nat.zero_le _
  single h := absurd rfl h
  one := Nat.zero_le _
  attended _ := rfl
  gone h := by cases h

theorem nothing_missed (b : Books origin s made got left missed) (h : s.isStopped = false) :
    missed = [] := by
  by_contra hmissed
  exact absurd ((b.single hmissed).1.symm.trans h) Bool.noConfusion

theorem still {s' : Subscription} (b : Books origin s made got left missed) (h : Still s s') :
    Books origin s' made got left missed := by
  obtain ⟨hsame, hpending, hcancelled, hstopped⟩ := h
  rw [hsame] at hpending hstopped hcancelled ⊢
  exact { b with
    whole := hpending ▸ b.whole
    single := fun h => ⟨hstopped (b.single h).1, hcancelled (b.single h).2⟩
    gone := fun h => ⟨(b.gone h).1, hcancelled (b.gone h).2⟩ }

theorem payload {fields : Json} (b : Books origin s made got left missed)
    (hphase : s.phase = .working) :
    Books origin (s.conclude (.payload fields)) (made ++ [fields]) got left missed := by
  have hmissed := b.nothing_missed (by simp [isStopped, hphase])
  have hconclude : s.conclude (.payload fields) =
      { s with phase := .sending (origin.event fields) } := by
    simp [conclude, hphase, event, b.source, b.eventType]
  subst hmissed
  rw [hconclude]
  refine { b with whole := ?_, single := fun h => absurd rfl h }
  rw [List.map_append, b.whole]
  simp [pending, hphase]

theorem queued {e : Event} (b : Books origin s made got left missed) (hphase : s.phase = .sending e)
    (hattended : s.attended = true) (hroom : s.queue.length < s.capacity) :
    Books origin { s with queue := s.queue ++ [e], phase := .resting } made got left missed := by
  have hleft := b.attended hattended
  have hmissed := b.nothing_missed (by simp [isStopped, hphase])
  subst hleft hmissed
  refine { b with whole := ?_, room := ?_, single := fun h => absurd rfl h, gone := fun h => ?_ }
  · rw [b.whole]
    simp [pending, hphase]
  · simp only [List.length_append, List.length_singleton, List.length_nil]
    omega
  · cases hattended.symm.trans h

theorem stopped (b : Books origin s made got left missed) (hcancelled : s.cancelled = true) :
    Books origin s.stop made got left (missed ++ s.pending) := by
  cases hstopped : s.isStopped with
  | true =>
    have hwhole := b.whole
    rw [pending_of_isStopped hstopped] at hwhole ⊢
    rw [List.append_nil missed]
    exact { b with whole := hwhole, single := fun _ => ⟨rfl, hcancelled⟩ }
  | false =>
    have hmissed := b.nothing_missed hstopped
    subst hmissed
    refine { b with whole := ?_, single := fun _ => ⟨rfl, hcancelled⟩, one := ?_ }
    · rw [b.whole]
      simp [stop, pending]
    · unfold pending
      split <;> simp

theorem taken {e : Event} {rest : List Event} (b : Books origin s made got left missed)
    (hqueue : s.queue = e :: rest) :
    Books origin { s with queue := rest } made (got ++ [e]) left missed := by
  have hroom := b.room
  rw [hqueue, List.length_cons] at hroom
  refine { b with whole := ?_, room := ?_, gone := fun h => ?_ }
  · rw [b.whole, hqueue]
    simp [pending]
  · simp only
    omega
  · cases hqueue.symm.trans (b.gone h).1

theorem dropped (b : Books origin s made got left missed) :
    Books origin s.drop made got (left ++ s.queue) missed := by
  have hordered : s.queue ++ left = left ++ s.queue := by
    cases hattended : s.attended with
    | true => rw [b.attended hattended, List.append_nil, List.nil_append]
    | false => rw [(b.gone hattended).1, List.nil_append, List.append_nil]
  refine { b with
    whole := ?_
    room := ?_
    single := fun h => ⟨(b.single h).1, rfl⟩
    attended := fun h => Bool.noConfusion h
    gone := fun _ => ⟨rfl, rfl⟩ }
  · rw [b.whole]
    simp [drop, pending, ← hordered]
  · have hroom := b.room
    simp only [drop, List.length_append, List.length_nil]
    omega

theorem does_still {m : Move} (b : Books origin s made got left missed) (h : Still s (s.does m))
    (hproduced : m.produced? = none) (hreceived : s.receivedIn m = [])
    (habandoned : s.abandonedIn m = []) :
    Books origin (s.does m) (made ++ m.produced?.toList) (got ++ s.receivedIn m)
      (left ++ s.abandonedIn m) (missed ++ s.lostIn m) := by
  rw [hproduced, hreceived, habandoned, lostIn_of_pending h.pending]
  simpa using b.still h

theorem does_conclude (b : Books origin s made got left missed) (hphase : s.phase = .working) :
    Books origin (s.does (.conclude r)) (made ++ (Move.conclude r).produced?.toList)
      (got ++ s.receivedIn (.conclude r)) (left ++ s.abandonedIn (.conclude r))
      (missed ++ s.lostIn (.conclude r)) := by
  cases hproduced : (Move.conclude r).produced? with
  | none => exact hproduced ▸ b.does_still (Still.conclude hproduced) hproduced rfl rfl
  | some fields =>
    cases r <;> cases hproduced
    have hlost : s.lostIn (.conclude (.payload fields)) = [] :=
      lostIn_of_going (by simp [does, conclude, hphase, isStopped])
    rw [hlost]
    simpa [receivedIn, abandonedIn, Subscription.does] using b.payload hphase

theorem does_push (b : Books origin s made got left missed) :
    Books origin (s.does .push) made got left (missed ++ s.lostIn .push) := by
  cases hphase : s.phase with
  | sending e =>
    cases hattended : s.attended with
    | false =>
      have hstop : s.does .push = s.stop := by simp [does, push, hphase, hattended, stop]
      rw [lostIn_stop hstop, hstop]
      exact b.stopped (b.gone hattended).2
    | true =>
      by_cases hroom : s.queue.length < s.capacity
      · have hpush : s.does .push = { s with queue := s.queue ++ [e], phase := .resting } := by
          simp [does, push, hphase, hattended, hroom]
        rw [lostIn_of_going (by rw [hpush]; rfl), hpush]
        simpa using b.queued hphase hattended hroom
      · cases hcancelled : s.cancelled with
        | true =>
          have hstop : s.does .push = s.stop := by
            simp [does, push, hphase, hattended, hroom, hcancelled, stop]
          rw [lostIn_stop hstop, hstop]
          exact b.stopped hcancelled
        | false =>
          have hsame : s.does .push = s := by
            simp [does, push, hphase, hattended, hroom, hcancelled]
          rw [lostIn_of_pending (by rw [hsame]), hsame]
          simpa using b
  | _ =>
    have hsame : s.does .push = s := by simp [does, push, hphase]
    rw [lostIn_of_pending (by rw [hsame]), hsame]
    simpa using b

theorem does_giveUp (b : Books origin s made got left missed) :
    Books origin (s.does .giveUp) made got left (missed ++ s.lostIn .giveUp) := by
  have hcases : s.does .giveUp = s ∨ s.does .giveUp = s.stop ∧ s.cancelled = true := by
    simp only [does, giveUp]
    cases s.phase <;> cases s.cancelled <;> simp
  rcases hcases with hsame | ⟨hstop, hcancelled⟩
  · rw [lostIn_of_pending (by rw [hsame]), hsame]
    simpa using b
  · rw [lostIn_stop hstop, hstop]
    exact b.stopped hcancelled

theorem does_take (b : Books origin s made got left missed) :
    Books origin (s.does .take) made (got ++ s.receivedIn .take) left missed := by
  cases hqueue : s.queue with
  | nil => simpa [does, receivedIn, take?, hqueue] using b
  | cons e rest => simpa [does, receivedIn, take?, hqueue] using b.taken hqueue

/-- Whatever happens, the books are kept. -/
theorem does (b : Books origin s made got left missed) (m : Move)
    (hproper : ∀ r, m = .conclude r → s.phase = .working) :
    Books origin (s.does m) (made ++ m.produced?.toList) (got ++ s.receivedIn m)
      (left ++ s.abandonedIn m) (missed ++ s.lostIn m) := by
  cases m with
  | begin => exact b.does_still (.begin s) rfl rfl rfl
  | conclude r => exact b.does_conclude (hproper r rfl)
  | push => simpa [Move.produced?, receivedIn, abandonedIn] using b.does_push
  | giveUp => simpa [Move.produced?, receivedIn, abandonedIn] using b.does_giveUp
  | wake elapsed => exact b.does_still (.wake s elapsed) rfl rfl rfl
  | take =>
    have hlost : s.lostIn .take = [] := by
      refine lostIn_of_pending ?_
      rw [does_take_eq]
      rfl
    rw [hlost]
    simpa [Move.produced?, abandonedIn] using b.does_take
  | cancel => exact b.does_still (.cancel s) rfl rfl rfl
  | drop =>
    rw [lostIn_of_pending rfl]
    simpa [Move.produced?, receivedIn, abandonedIn, Subscription.does] using b.dropped

end Books

theorem produced_concat (moves : List Move) (m : Move) :
    produced (moves ++ [m]) = produced moves ++ m.produced?.toList := by
  rw [produced, List.filterMap_append]
  cases h : m.produced? <;> simp [produced, h]

theorem plays_concat (s : Subscription) (moves : List Move) (m : Move) :
    s.plays (moves ++ [m]) = (s.plays moves).does m := plays_append s moves [m]

theorem gather_concat {α : Type} (f : Subscription → Move → List α) (s : Subscription)
    (moves : List Move) (m : Move) :
    gather f s (moves ++ [m]) = gather f s moves ++ f (s.plays moves) m := by
  rw [gather_append, gather_singleton]

theorem Books.plays {moves : List Move} (b : Books origin origin [] [] [] [])
    (h : origin.Proper moves) :
    Books origin (origin.plays moves) (produced moves) (origin.received moves)
      (origin.abandoned moves) (origin.lost moves) := by
  induction moves using List.reverseRecOn with
  | nil => exact b
  | append_singleton moves m ih =>
    rw [plays_concat, produced_concat, received, abandoned, lost, gather_concat, gather_concat,
      gather_concat]
    obtain ⟨hmoves, hlast⟩ := proper_append.mp h
    exact (ih hmoves).does m (proper_singleton.mp hlast)

def Over (s : Subscription) : Prop := s.cancelled = true ∨ s.isStopped = true

theorem does_of_isStopped (h : s.isStopped = true) (m : Move) : (s.does m).isStopped = true := by
  unfold isStopped at h ⊢
  cases hphase : s.phase <;> simp only [hphase, Bool.false_eq_true] at h
  cases m with
  | take => simp [does_take_eq, hphase]
  | _ => simp [does, begin, conclude, push, giveUp, wake, cancel, drop, hphase]

theorem cancelled_does (s : Subscription) (m : Move) :
    (s.does m).cancelled = (s.cancelled || m.cancels) := by
  cases m with
  | begin | conclude r =>
    simp only [does, begin, conclude]
    split <;> simp [Move.cancels]
  | push | giveUp | wake elapsed =>
    simp only [does, push, giveUp, wake, stop]
    repeat' split
    all_goals simp [Move.cancels]
  | take => simp [does_take_eq, Move.cancels]
  | cancel | drop => simp [does, cancel, drop, Move.cancels]

theorem Over.does (h : s.Over) (m : Move) : (s.does m).Over :=
  h.imp (fun h => by rw [cancelled_does, h, Bool.true_or]) (does_of_isStopped · m)

theorem Books.ahead {made : List Json} {got left missed : List Event}
    (b : Books origin s made got left missed) :
    made.length ≤ got.length + (origin.capacity + 1) := by
  have hone : s.pending.length + missed.length ≤ 1 := by
    by_cases hmissed : missed = []
    · subst hmissed
      unfold pending
      split <;> simp
    · rw [pending_of_isStopped (b.single hmissed).1]
      simpa using b.one
  have hlength := congrArg List.length b.whole
  have hroom := b.room
  rw [b.capacity] at hroom
  simp only [List.length_map, List.length_append] at hlength
  omega

end Switchboard.Subscription
