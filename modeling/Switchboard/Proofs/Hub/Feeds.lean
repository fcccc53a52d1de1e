import Switchboard.Proofs.Events.Rounds
import Switchboard.Proofs.Hub.Numbers
import Switchboard.Proofs.Hub.Starts

namespace Switchboard

open Subscription (Move)

namespace Exchange

variable {n : Nat} {name : String} {source : EventSource}

def restUntil (n : Nat) (name : String) (source : EventSource) (time : Nat) : Routine Outcome := do
  let rested : Bool ← Routine.ask (.rest n time)
  if rested then Routine.goOnAs (.rounds n name source) else sourceStopped name

def afterPush (n : Nat) (name : String) (source : EventSource) : Routine Outcome := do
  let now : Nat ← Routine.ask .now
  restUntil n name source (now + source.interval)

def afterRound (n : Nat) (name : String) (source : EventSource) : Round → Routine Outcome
  | .panicked p => return .panicked p
  | .failed e => do
    Routine.log .error s!"Event source {name} failed: {e.message}"
    sourceStopped name
  | .payload _ | .nothing => do
    let sent : Bool ← Routine.ask (.push n)
    if sent then afterPush n name source else sourceStopped name

def conclude (n : Nat) (name : String) (brought : Round × EventSource) : Routine Outcome := do
  Routine.ask (.concludeRound n brought.1)
  afterRound n name brought.2 brought.1

theorem runRounds_eq (n : Nat) (name : String) (source : EventSource) :
    runRounds n name source = (do
      let begun : Bool ← Routine.ask (.beginRound n)
      if begun then playRound source >>= conclude n name else sourceStopped name) := by
  unfold runRounds
  rfl

end Exchange

namespace Subscription

variable {s : Subscription}

theorem push_cases (h : s.isSending = true ∨ s.phase = .resting) :
    s.push = s ∧ s.isSending = true ∨ s.push.isSending = false ∧
      (s.push.isStopped = true ∨ s.push.isStopped = false ∧ s.push.phase = .resting) := by
  unfold push
  split
  next e hphase =>
    repeat' split
    all_goals simp [isSending, isStopped, hphase]
  next hphase =>
    rcases h with h | h
    · unfold isSending at h
      split at h
      next e hsending => exact absurd hsending (hphase e)
      next => cases h
    · simp [isSending, isStopped, h]

theorem wake_cases (h : s.phase = .resting) (elapsed : Bool) :
    elapsed = false ∧ s.wake elapsed = s ∧ s.isStopped = false ∨
      elapsed = false ∧ (s.wake elapsed).isStopped = true ∨
      elapsed = true ∧ (s.wake elapsed).isStopped = false ∧ (s.wake elapsed).phase = .ready := by
  unfold wake
  rw [h]
  cases elapsed with
  | true => simp [isStopped]
  | false => cases hcancelled : s.cancelled <;> simp [isStopped, h]

theorem isStopped_giveUp (hcancelled : s.cancelled = true)
    (hwaits : s.isSending = true ∨ s.phase = .resting) : s.giveUp.isStopped = true := by
  unfold giveUp
  split
  next => rw [if_pos hcancelled]; rfl
  next => rw [if_pos hcancelled]; rfl
  next hsending hresting =>
    rcases hwaits with h | h
    · unfold isSending at h
      split at h
      next e hphase => exact absurd hphase (hsending e)
      next => cases h
    · exact absurd h hresting

/-- Nothing but the loop changes the phase. -/
theorem phase_does_subscriber (s : Subscription) {m : Move}
    (hm : m = .take ∨ m = .cancel ∨ m = .drop) : (s.does m).phase = s.phase := by
  rcases hm with rfl | rfl | rfl
  · rw [does_take_eq]
  · rfl
  · rfl

end Subscription

namespace Hub

variable {s s' s'' : Hub} {n task : Nat} {name : String} {sub origin : Subscription}
  {moves : List Move} {r : Routine Outcome}

def routine? (s : Hub) (task : Nat) : Option (Routine Outcome) :=
  (s.task? task).map Task.routine

theorem routine?_of_bare (h : s.bare = s'.bare) (task : Nat) :
    s.routine? task = s'.routine? task := by
  have hbare : ∀ s : Hub, s.routine? task = s.bare.routine? task := by
    intro s
    simp only [routine?, task?, bare, List.find?_map, Option.map_map]
    rfl
  rw [hbare, hbare s', h]

theorem routine?_goOn (s : Hub) (task : Nat) (r : Routine Outcome) :
    (s.goOn task r).routine? task = (s.routine? task).map fun _ => r := by
  simp only [routine?, task?, goOn, updateTask]
  induction s.tasks with
  | nil => rfl
  | cons t rest ih =>
    by_cases ht : t.id = task
    · simp [ht]
    · simpa [List.find?_cons, ht] using ih

theorem routine?_resume (s : Hub) (task : Nat) (r : Routine Outcome) :
    (s.resume task r).routine? task = (s.routine? task).map fun _ => r :=
  (routine?_of_bare (bare_resume s task r) task).trans (routine?_goOn s task r)

@[simp] theorem subscriptions_enqueue (s : Hub) (turn : Turn) :
    (s.enqueue turn).subscriptions = s.subscriptions := by
  unfold enqueue
  split <;> rfl

@[simp] theorem subscriptions_wake (s : Hub) (id : Nat) :
    (s.wake id).subscriptions = s.subscriptions := subscriptions_enqueue _ _

@[simp] theorem subscriptions_wakeAt (s : Hub) (p : Action → Bool) :
    (s.wakeAt p).subscriptions = s.subscriptions := by
  unfold wakeAt
  induction s.tasks.filter fun t => t.action?.any p generalizing s with
  | nil => rfl
  | cons t rest ih => exact (ih (s.wake t.id)).trans (subscriptions_wake s t.id)

@[simp] theorem subscriptions_arm (s : Hub) (time id : Nat) :
    (s.arm time id).subscriptions = s.subscriptions := by
  unfold arm
  split <;> rfl

theorem subscription?_updateSubscription (s : Hub) (n : Nat) (f : Subscription → Subscription) :
    (s.updateSubscription n f).subscription? n = (s.subscription? n).map f := by
  simp only [subscription?, updateSubscription, subscriptions_wakeAt]
  induction s.subscriptions with
  | nil => rfl
  | cons e rest ih =>
    obtain ⟨m, sub⟩ := e
    by_cases hm : m = n
    · simp [hm]
    · have hne : (n == m) = false := beq_false_of_ne (Ne.symm hm)
      simpa [hm, List.lookup_cons, hne] using ih

theorem routine?_updateSubscription (s : Hub) (n : Nat) (f : Subscription → Subscription)
    (task : Nat) : (s.updateSubscription n f).routine? task = s.routine? task :=
  routine?_of_bare (bare_updateSubscription s n f) task

theorem subscription?_run_one (s : Hub) (task : Nat) (action : Action)
    (next : action.Reply → Routine Outcome) (n : Nat) :
    (run 1 s task (.act action next)).subscription? n =
      (s.step task action next).1.subscription? n := by
  rw [run]
  split
  next heq => rw [heq]; rfl
  next heq => rw [heq]; rfl

theorem routine?_run_one {action : Action} {next : action.Reply → Routine Outcome}
    (himprint : s.imprint task action next = s) :
    (run 1 s task (.act action next)).routine? task =
      (s.routine? task).map fun _ => (s.step task action next).2.getD (.act action next) := by
  rw [routine?_of_bare (bare_run_one s task action next), himprint, routine?_goOn]

inductive Ending : Routine Outcome → Prop where
  | done (outcome : Outcome) : Ending (.done outcome)
  | log (record : LogRecord) {next : Unit → Routine Outcome} (h : Ending (next ())) :
      Ending (.act (.log record) next)

/-- How far a loop can be, given its subscription. -/
inductive Loop (n : Nat) (name : String) (sub : Subscription) : Routine Outcome → Prop where
  | started (source : EventSource) (h : sub.phase = .ready) :
      Loop n name sub (Exchange.startRounds n name source)
  | ready (source : EventSource) (h : sub.phase = .ready) :
      Loop n name sub (Exchange.runRounds n name source)
  | again (source : EventSource) (h : sub.phase = .ready) :
      Loop n name sub (Routine.goOnAs (.rounds n name source))
  | working (work : Routine (Round × EventSource)) (h : sub.phase = .working) :
      Loop n name sub (work >>= Exchange.conclude n name)
  | pushing (source : EventSource) (h : sub.isSending = true ∨ sub.phase = .resting) :
      Loop n name sub (Exchange.afterRound n name source .nothing)
  | pausing (source : EventSource) (h : sub.phase = .resting) :
      Loop n name sub (Exchange.afterPush n name source)
  | resting (source : EventSource) (time : Nat) (h : sub.phase = .resting) :
      Loop n name sub (Exchange.restUntil n name source time)
  | ending {r : Routine Outcome} (h : sub.isStopped = true) (hr : Ending r) :
      Loop n name sub r

def movesOf (s : Hub) : Routine Outcome → List Move
  | .act (.beginRound _) _ => [.begin]
  | .act (.concludeRound _ round) _ => [.conclude round]
  | .act (.push _) _ => [.push]
  | .act (.rest _ time) _ => [.wake (time ≤ s.now)]
  | _ => []

/-- A hub with a subscription, and with its loop unless that is done. -/
structure Keeps (n task : Nat) (name : String) (sub : Subscription) (s : Hub) : Prop where
  subscription : s.subscription? n = some sub
  loop : ∀ r, s.routine? task = some r → Loop n name sub r

theorem keeps_act {action : Action} {next : action.Reply → Routine Outcome}
    (himprint : s.imprint task action next = s)
    (hsub : (s.step task action next).1.subscription? n = some sub)
    (hloop : Loop n name sub ((s.step task action next).2.getD (.act action next))) :
    Keeps n task name sub (run 1 s task (.act action next)) where
  subscription := (subscription?_run_one s task action next n).trans hsub
  loop r hr := by
    rw [routine?_run_one himprint] at hr
    obtain ⟨-, -, rfl⟩ := Option.map_eq_some_iff.mp hr
    exact hloop

theorem ending_sourceStopped (name : String) : Ending (Exchange.sourceStopped name) :=
  .log _ (.done _)

theorem keeps_begin {source : EventSource} (hsub : s.subscription? n = some sub)
    (hphase : sub.phase = .ready) :
    Keeps n task name sub.begin (run 1 s task (Exchange.runRounds n name source)) := by
  have hbegun : (s.updateSubscription n Subscription.begin).subscription? n = some sub.begin := by
    rw [subscription?_updateSubscription, hsub]
    rfl
  rw [Exchange.runRounds_eq]
  refine keeps_act rfl hbegun ?_
  simp only [step, hbegun, Option.any_some, Option.getD_some]
  cases hcancelled : sub.cancelled with
  | true =>
    have hstopped : sub.begin.isStopped = true := by
      simp [Subscription.begin, hphase, hcancelled, Subscription.isStopped]
    rw [hstopped]
    exact .ending hstopped (ending_sourceStopped name)
  | false =>
    have hworking : sub.begin.phase = .working := by
      simp [Subscription.begin, hphase, hcancelled]
    rw [show sub.begin.isStopped = false by simp [Subscription.isStopped, hworking]]
    exact .working (Exchange.playRound source) hworking

theorem keeps_conclude {brought : Round × EventSource} (hsub : s.subscription? n = some sub)
    (hphase : sub.phase = .working) :
    Keeps n task name (sub.conclude brought.1)
      (run 1 s task (Exchange.conclude n name brought)) := by
  have hconcluded : (s.updateSubscription n fun sub => sub.conclude brought.1).subscription? n =
      some (sub.conclude brought.1) := by
    rw [subscription?_updateSubscription, hsub]
    rfl
  refine keeps_act rfl hconcluded ?_
  obtain ⟨round, source⟩ := brought
  cases round with
  | payload fields =>
    exact .pushing source (.inl (by simp [Subscription.conclude, hphase, Subscription.isSending]))
  | nothing => exact .pushing source (.inr (by simp [Subscription.conclude, hphase]))
  | failed e =>
    refine .ending ?_ (.log _ (ending_sourceStopped name))
    simp [Subscription.conclude, hphase, Subscription.isStopped]
  | panicked p =>
    refine .ending ?_ (.done _)
    simp [Subscription.conclude, hphase, Subscription.isStopped]

theorem keeps_push {source : EventSource} (hsub : s.subscription? n = some sub)
    (hphase : sub.isSending = true ∨ sub.phase = .resting) :
    Keeps n task name sub.push
      (run 1 s task (Exchange.afterRound n name source .nothing)) := by
  let next (sent : Bool) : Routine Outcome :=
    if sent then Exchange.afterPush n name source else Exchange.sourceStopped name
  have hstep : s.step task (.push n) next =
      if sub.push.isSending then (s, none)
      else (s.updateSubscription n fun _ => sub.push, some (next (!sub.push.isStopped))) := by
    simp only [step, hsub, Option.map_some]
  have hupdated : (s.updateSubscription n fun _ => sub.push).subscription? n = some sub.push := by
    rw [subscription?_updateSubscription, hsub]
    rfl
  change Keeps n task name sub.push (run 1 s task (.act (.push n) next))
  rcases Subscription.push_cases hphase with ⟨hsame, hsending⟩ | ⟨hsent, hcases⟩
  · rw [hsame, hsending, if_pos rfl] at hstep
    rw [hsame]
    refine keeps_act rfl ?_ ?_ <;> rw [hstep]
    · exact hsub
    · exact .pushing source hphase
  · rw [hsent, if_neg Bool.false_ne_true] at hstep
    refine keeps_act rfl ?_ ?_ <;> rw [hstep]
    · exact hupdated
    · rcases hcases with hstopped | ⟨hgoes, hresting⟩
      · rw [hstopped]
        exact .ending hstopped (ending_sourceStopped name)
      · rw [hgoes]
        exact .pausing source hresting

theorem keeps_wake {source : EventSource} {time : Nat} (hsub : s.subscription? n = some sub)
    (hphase : sub.phase = .resting) : Keeps n task name (sub.wake (time ≤ s.now))
      (run 1 s task (Exchange.restUntil n name source time)) := by
  let next (rested : Bool) : Routine Outcome :=
    if rested then Routine.goOnAs (.rounds n name source) else Exchange.sourceStopped name
  generalize helapsed : decide (time ≤ s.now) = elapsed
  have hstep : s.step task (.rest n time) next =
      if elapsed || (sub.wake elapsed).isStopped then
        (s.updateSubscription n fun _ => sub.wake elapsed,
          some (next (!(sub.wake elapsed).isStopped)))
      else (s.arm time task, none) := by
    simp only [step, hsub, Option.map_some, helapsed]
  have hupdated : (s.updateSubscription n fun _ => sub.wake elapsed).subscription? n =
      some (sub.wake elapsed) := by
    rw [subscription?_updateSubscription, hsub]
    rfl
  change Keeps n task name (sub.wake elapsed) (run 1 s task (.act (.rest n time) next))
  rcases Subscription.wake_cases hphase elapsed with
    ⟨rfl, hsame, hgoes⟩ | ⟨rfl, hstopped⟩ | ⟨rfl, hgoes, hready⟩
  · rw [hsame, hgoes, Bool.or_false, if_neg Bool.false_ne_true] at hstep
    rw [hsame]
    refine keeps_act rfl ?_ ?_ <;> rw [hstep]
    · exact (congrArg (List.lookup n) (subscriptions_arm s time task)).trans hsub
    · exact .resting source time hphase
  · rw [hstopped, Bool.or_true, if_pos rfl] at hstep
    refine keeps_act rfl ?_ ?_ <;> rw [hstep]
    · exact hupdated
    · exact .ending hstopped (ending_sourceStopped name)
  · rw [hgoes, Bool.true_or, if_pos rfl] at hstep
    refine keeps_act rfl ?_ ?_ <;> rw [hstep]
    · exact hupdated
    · exact .again source hready

theorem keeps_end (hsub : s.subscription? n = some sub) (hstopped : sub.isStopped = true)
    (hr : Ending r) : Keeps n task name sub (run 1 s task r) := by
  cases hr with
  | done outcome =>
    refine ⟨?_, fun r hr => ?_⟩
    · exact (congrArg (List.lookup n) (subscriptions_wakeAt _ _)).trans hsub
    · have hgone : (s.dropTask task).routine? task = none := by
        simp [routine?, task?, dropTask]
      rw [show (run 1 s task (.done outcome)) = s.finishTask task outcome from rfl,
        routine?_of_bare (bare_finishTask s task outcome), hgone] at hr
      cases hr
  | log record hnext => exact keeps_act rfl hsub (.ending hstopped hnext)

/-- The loop does what it does next, unless the source is at work. -/
theorem Loop.keeps (h : Loop n name sub r) (hsub : s.subscription? n = some sub)
    (hown : sub.phase = .working → ∃ brought, r = Exchange.conclude n name brought) :
    Keeps n task name (sub.plays (s.movesOf r)) (run 1 s task r) ∧
      sub.Proper (s.movesOf r) := by
  cases h with
  | started source hphase => exact ⟨keeps_act rfl hsub (.ready source hphase), trivial⟩
  | ready source hphase => exact ⟨keeps_begin hsub hphase, Subscription.proper_singleton.mpr nofun⟩
  | again source hphase => exact ⟨keeps_act rfl hsub (.ready source hphase), trivial⟩
  | working work hphase =>
    obtain ⟨brought, hbrought⟩ := hown hphase
    rw [hbrought]
    exact ⟨keeps_conclude hsub hphase, Subscription.proper_singleton.mpr fun _ _ => hphase⟩
  | pushing source hphase => exact ⟨keeps_push hsub hphase, Subscription.proper_singleton.mpr nofun⟩
  | pausing source hphase =>
    exact ⟨keeps_act rfl hsub (.resting source _ hphase), trivial⟩
  | resting source time hphase =>
    exact ⟨keeps_wake hsub hphase, Subscription.proper_singleton.mpr nofun⟩
  | ending hstopped hr =>
    have hmoves : s.movesOf r = [] := by cases hr <;> rfl
    rw [hmoves]
    exact ⟨keeps_end hsub hstopped hr, trivial⟩

/-- What the loop of a subscription does in a hub and what its subscriber does, in any order and
among whatever else happens, with what that is for the subscription. -/
inductive Feeds (n task : Nat) (name : String) (s : Hub) : List Move → Hub → Prop where
  | start : Feeds n task name s [] s
  | act {moves : List Move} {s' : Hub} {sub : Subscription} {r : Routine Outcome}
      (h : Feeds n task name s moves s') (hsub : s'.subscription? n = some sub)
      (hr : s'.routine? task = some r)
      (hown : sub.phase = .working → ∃ brought, r = Exchange.conclude n name brought) :
      Feeds n task name s (moves ++ s'.movesOf r) (run 1 s' task r)
  /-- The source is at work, and is so in whatever way. -/
  | work {moves : List Move} {s' s'' : Hub} {sub : Subscription}
      {work : Routine (Round × EventSource)}
      (h : Feeds n task name s moves s') (hsub : s'.subscription? n = some sub)
      (hphase : sub.phase = .working) (hsame : s''.subscription? n = some sub)
      (hr : s''.routine? task = some (work >>= Exchange.conclude n name)) :
      Feeds n task name s moves s''
  | giveUp {moves : List Move} {s' : Hub} {sub : Subscription}
      (h : Feeds n task name s moves s') (hsub : s'.subscription? n = some sub)
      (hcancelled : sub.cancelled = true)
      (hwaits : sub.isSending = true ∨ sub.phase = .resting) :
      Feeds n task name s (moves ++ [.giveUp])
        ((s'.updateSubscription n Subscription.giveUp).resume task (Exchange.sourceStopped name))
  | take {moves : List Move} {s' : Hub} (h : Feeds n task name s moves s') :
      Feeds n task name s (moves ++ [.take]) (s'.updateSubscription n (·.does .take))
  | cancel {moves : List Move} {s' : Hub} (h : Feeds n task name s moves s') :
      Feeds n task name s (moves ++ [.cancel]) (s'.updateSubscription n Subscription.cancel)
  | drop {moves : List Move} {s' : Hub} (h : Feeds n task name s moves s') :
      Feeds n task name s (moves ++ [.drop]) (s'.updateSubscription n Subscription.drop)
  | around {moves : List Move} {s' s'' : Hub} (h : Feeds n task name s moves s')
      (hsub : s''.subscription? n = s'.subscription? n)
      (hr : s''.routine? task = s'.routine? task) : Feeds n task name s moves s''

theorem Loop.of_phase {sub' : Subscription} (h : Loop n name sub r)
    (hphase : sub'.phase = sub.phase) : Loop n name sub' r := by
  have hsending : sub'.isSending = sub.isSending := by
    simp only [Subscription.isSending, hphase]
  have hstopped : sub'.isStopped = sub.isStopped := by
    simp only [Subscription.isStopped, hphase]
  cases h with
  | started source h => exact .started source (hphase.trans h)
  | ready source h => exact .ready source (hphase.trans h)
  | again source h => exact .again source (hphase.trans h)
  | working work h => exact .working work (hphase.trans h)
  | pushing source h => exact .pushing source (h.imp hsending.trans hphase.trans)
  | pausing source h => exact .pausing source (hphase.trans h)
  | resting source time h => exact .resting source time (hphase.trans h)
  | ending h hr => exact .ending (hstopped.trans h) hr

theorem Keeps.subscriber (h : Keeps n task name sub s) {m : Move}
    (hm : m = .take ∨ m = .cancel ∨ m = .drop) :
    Keeps n task name (sub.does m) (s.updateSubscription n (·.does m)) where
  subscription := by rw [subscription?_updateSubscription, h.subscription]; rfl
  loop r hr := by
    rw [routine?_updateSubscription] at hr
    exact (h.loop r hr).of_phase (sub.phase_does_subscriber hm)

theorem Keeps.giveUp (h : Keeps n task name sub s) (hcancelled : sub.cancelled = true)
    (hwaits : sub.isSending = true ∨ sub.phase = .resting) :
    Keeps n task name sub.giveUp
      ((s.updateSubscription n Subscription.giveUp).resume task (Exchange.sourceStopped name)) where
  subscription := by
    have hsame : ((s.updateSubscription n Subscription.giveUp).resume task
        (Exchange.sourceStopped name)).subscriptions =
        (s.updateSubscription n Subscription.giveUp).subscriptions := subscriptions_wake _ _
    rw [subscription?, hsame, ← subscription?, subscription?_updateSubscription, h.subscription]
    rfl
  loop r hr := by
    rw [routine?_resume] at hr
    obtain ⟨-, -, rfl⟩ := Option.map_eq_some_iff.mp hr
    exact .ending (sub.isStopped_giveUp hcancelled hwaits) (ending_sourceStopped name)

/-- What a client takes at once it could take one by one. -/
theorem Feeds.receive (h : Feeds n task name s moves s') (count : Nat) :
    Feeds n task name s (moves ++ .replicate count .take)
      (s'.updateSubscription n fun sub => { sub with queue := sub.queue.drop count }) := by
  suffices htakes : ∃ s'', Feeds n task name s (moves ++ .replicate count .take) s'' ∧
      s''.subscription? n =
        (s'.subscription? n).map (fun sub => { sub with queue := sub.queue.drop count }) ∧
      s''.routine? task = s'.routine? task by
    obtain ⟨s'', hfeeds, hsub, hr⟩ := htakes
    refine hfeeds.around ?_ ((routine?_updateSubscription s' n _ task).trans hr.symm)
    rw [subscription?_updateSubscription, hsub]
  induction count with
  | zero =>
    refine ⟨s', by simpa using h, ?_, rfl⟩
    cases s'.subscription? n <;> rfl
  | succ count ih =>
    obtain ⟨s'', hfeeds, hsub, hr⟩ := ih
    rw [List.replicate_succ', ← List.append_assoc]
    refine ⟨_, hfeeds.take, ?_, (routine?_updateSubscription s'' n _ task).trans hr⟩
    rw [subscription?_updateSubscription, hsub, Option.map_map]
    refine congrArg (fun f => (s'.subscription? n).map f) (funext fun sub => ?_)
    simp only [Function.comp_apply, Subscription.does_take_eq, List.drop_drop]

theorem Feeds.keeps (hstart : Keeps n task name origin s) (h : Feeds n task name s moves s') :
    Keeps n task name (origin.plays moves) s' ∧ origin.Proper moves := by
  have hsubscriber : ∀ {moves : List Move} {s' : Hub} {m : Move},
      m = .take ∨ m = .cancel ∨ m = .drop →
      Keeps n task name (origin.plays moves) s' ∧ origin.Proper moves →
      Keeps n task name (origin.plays (moves ++ [m])) (s'.updateSubscription n (·.does m)) ∧
        origin.Proper (moves ++ [m]) := by
    rintro moves s' m hm ⟨hkeeps, hproper⟩
    rw [Subscription.plays_concat, Subscription.proper_append, Subscription.proper_singleton]
    refine ⟨hkeeps.subscriber hm, hproper, ?_⟩
    rintro r rfl
    simp at hm
  induction h with
  | start => exact ⟨hstart, trivial⟩
  | @act moves s' sub r _ hsub hr hown ih =>
    obtain ⟨hkeeps, hproper⟩ := ih
    cases Option.some.inj (hsub.symm.trans hkeeps.subscription)
    obtain ⟨hkeeps', hproper'⟩ := (hkeeps.loop r hr).keeps hsub hown
    rw [Subscription.plays_append]
    exact ⟨hkeeps', Subscription.proper_append.mpr ⟨hproper, hproper'⟩⟩
  | @work moves s' s'' sub work _ hsub hphase hsame hr ih =>
    obtain ⟨hkeeps, hproper⟩ := ih
    cases Option.some.inj (hsub.symm.trans hkeeps.subscription)
    refine ⟨⟨hsame, fun r hr' => ?_⟩, hproper⟩
    cases Option.some.inj (hr.symm.trans hr')
    exact .working work hphase
  | @giveUp moves s' sub _ hsub hcancelled hwaits ih =>
    obtain ⟨hkeeps, hproper⟩ := ih
    cases Option.some.inj (hsub.symm.trans hkeeps.subscription)
    rw [Subscription.plays_concat, Subscription.proper_append]
    exact ⟨hkeeps.giveUp hcancelled hwaits, hproper, Subscription.proper_singleton.mpr nofun⟩
  | take _ ih => exact hsubscriber (.inl rfl) ih
  | cancel _ ih => exact hsubscriber (.inr (.inl rfl)) ih
  | drop _ ih => exact hsubscriber (.inr (.inr rfl)) ih
  | @around moves s' s'' _ hsub hr ih =>
    obtain ⟨⟨hsubscription, hloop⟩, hproper⟩ := ih
    exact ⟨⟨hsub.trans hsubscription, fun r hr' => hloop r (hr.symm.trans hr')⟩, hproper⟩

def opened (s : Hub) (name : String) (source : EventSource) : Hub :=
  { s.write .debug s!"New subscription to {name}" with
    nextNumber := s.nextNumber + 1
    subscriptions := (s.nextNumber, .fresh name source.eventType
      (max s.exchange.settings.eventChannelCapacity 1)) :: s.subscriptions }

def ticks : Playlist where
  items := [.emit (.nat 1), .emit (.nat 2)]
  args := .null
  position := 0
  interval := 10
  eventType := .added

def turn (s : Hub) (task : Nat) : Hub :=
  match s.routine? task with
  | some r => run 1 s task r
  | none => s

theorem Feeds.turn {after : List Move} (h : Feeds n task name s moves s') (sub : Subscription)
    (hsub : s'.subscription? n = some sub) (hr : s'.routine? task = some r)
    (hown : sub.phase = .working → ∃ brought, r = Exchange.conclude n name brought)
    (hmoves : moves ++ s'.movesOf r = after) : Feeds n task name s after (s'.turn task) := by
  have hturn : s'.turn task = run 1 s' task r := by rw [Hub.turn, hr]
  rw [hturn, ← hmoves]
  exact h.act hsub hr hown

end Hub

end Switchboard
