import Switchboard.Proofs.Events.Fanout
import Switchboard.Proofs.Hub.Strokes
import Switchboard.Proofs.Jobs.Replica
import Switchboard.Proofs.Jobs.Telling

namespace Switchboard

namespace Hub

variable {s s' : Hub} {receiver : Nat} {queue : List Event}

/-- What only the keeper changes is the same, but for the readers. -/
structure SameKeeping (s s' : Hub) : Prop where
  jobs : s'.jobs = s.jobs
  board : s'.board = s.board
  jobEvents : s'.jobEvents = s.jobEvents
  kept : s'.kept = s.kept

theorem sameKeeping_of_bare (h : s'.bare = s.bare) : SameKeeping s s' := by
  have hjobs := congrArg Hub.jobs h
  have hboard := congrArg Hub.board h
  have hevents := congrArg Hub.jobEvents h
  have hkept := congrArg Hub.kept h
  exact ⟨hjobs, hboard, hevents, hkept⟩

theorem SameKeeping.trans {s'' : Hub} (h : SameKeeping s s') (h' : SameKeeping s' s'') :
    SameKeeping s s'' :=
  ⟨h'.jobs.trans h.jobs, h'.board.trans h.board, h'.jobEvents.trans h.jobEvents,
    h'.kept.trans h.kept⟩

theorem sameKeeping_spawn (s : Hub) (routine : Routine Outcome)
    (fallback : Option (Token × Routine Outcome)) :
    SameKeeping s (s.spawn routine fallback).2 := by
  refine SameKeeping.trans ?_ (sameKeeping_of_bare (bare_spawn s routine fallback))
  exact ⟨rfl, rfl, rfl, rfl⟩

theorem sameKeeping_imprint (s : Hub) (task : Nat) (action : Action)
    (next : action.Reply → Routine Outcome) : SameKeeping s (s.imprint task action next) := by
  cases action with
  | spawn work => exact sameKeeping_spawn s _ _
  | ask request =>
    simp only [imprint]
    split <;> exact ⟨rfl, rfl, rfl, rfl⟩
  | report report =>
    simp only [imprint]
    split <;> exact ⟨rfl, rfl, rfl, rfl⟩
  | _ => exact ⟨rfl, rfl, rfl, rfl⟩

theorem sameKeeping_step (s : Hub) (task : Nat) (action : Action)
    (next : action.Reply → Routine Outcome) : SameKeeping s (s.step task action next).1 :=
  (sameKeeping_imprint s task action next).trans (sameKeeping_of_bare (bare_step s task action next))

theorem sameKeeping_run (fuel : Nat) (s : Hub) (task : Nat) (routine : Routine Outcome) :
    SameKeeping s (run fuel s task routine) := by
  induction fuel generalizing s routine with
  | zero => exact ⟨rfl, rfl, rfl, rfl⟩
  | succ fuel ih =>
    cases routine with
    | done outcome =>
      have hdrop : SameKeeping s (s.dropTask task) := ⟨rfl, rfl, rfl, rfl⟩
      exact hdrop.trans (sameKeeping_of_bare (bare_finishTask s task outcome))
    | act action next =>
      have hstep := sameKeeping_step s task action next
      rw [run]
      split
      next s' routine heq =>
        rw [heq] at hstep
        have hdisarm : SameKeeping s' (s'.disarm task) := ⟨rfl, rfl, rfl, rfl⟩
        exact (hstep.trans hdisarm).trans (ih _ _)
      next s' heq =>
        rw [heq] at hstep
        exact hstep.trans ⟨rfl, rfl, rfl, rfl⟩

theorem sameKeeping_act (s : Hub) (task : Nat) : SameKeeping s (s.act task) := by
  unfold act
  split
  next => exact ⟨rfl, rfl, rfl, rfl⟩
  next =>
    split
    next => exact ⟨rfl, rfl, rfl, rfl⟩
    next => exact sameKeeping_run _ _ _ _

theorem sameKeeping_fallBack (s : Hub) (task : Nat) : SameKeeping s (s.fallBack task) := by
  unfold fallBack
  split
  next => exact ⟨rfl, rfl, rfl, rfl⟩
  next token routine _ =>
    split
    next =>
      have hstart : SameKeeping s ((s.withdraw task).updateTask task fun t =>
        { t with fallback := none }) := ⟨rfl, rfl, rfl, rfl⟩
      exact hstart.trans (sameKeeping_run _ _ _ _)
    next => exact ⟨rfl, rfl, rfl, rfl⟩

theorem apply_jobs (s : Hub) (effect : JobEffect JobBody) : (s.apply effect).jobs = s.jobs ∧
    (s.apply effect).kept = s.kept ∧
    (s.apply effect).jobEvents = s.jobEvents.broadcastAll (eventsOf [effect]) := by
  cases effect with
  | publish event => exact ⟨rfl, rfl, rfl⟩
  | reveal snapshot =>
    have hwake := sameKeeping_of_bare (bare_wakeWatchers
      { s with board := s.board.reveal snapshot } snapshot.id)
    exact ⟨hwake.jobs, hwake.kept, hwake.jobEvents⟩
  | conceal id =>
    have hwake := sameKeeping_of_bare (bare_wakeWatchers { s with board := s.board.conceal id } id)
    exact ⟨hwake.jobs, hwake.kept, hwake.jobEvents⟩
  | start id droppable body =>
    have hspawn := sameKeeping_spawn s (s.exchange.runJob id body)
      (if droppable then some (.job id, Exchange.reportDropped id) else none)
    exact ⟨hspawn.jobs, hspawn.kept, hspawn.jobEvents⟩
  | armTimer id ms =>
    have hspawn := sameKeeping_spawn s (Exchange.runLockTimer id ms) none
    exact ⟨hspawn.jobs, hspawn.kept, hspawn.jobEvents⟩
  | disarmTimer id =>
    simp only [apply]
    split <;> exact ⟨rfl, rfl, rfl⟩
  | cancel id =>
    have hcancel := sameKeeping_of_bare (bare_cancel s (.job id))
    exact ⟨hcancel.jobs, hcancel.kept, hcancel.jobEvents⟩
  | log record => exact ⟨rfl, rfl, rfl⟩

theorem foldl_apply_jobs (effects : List (JobEffect JobBody)) (s : Hub) :
    (effects.foldl apply s).jobs = s.jobs ∧ (effects.foldl apply s).kept = s.kept ∧
    (effects.foldl apply s).jobEvents = s.jobEvents.broadcastAll (eventsOf effects) := by
  induction effects generalizing s with
  | nil => exact ⟨rfl, rfl, rfl⟩
  | cons effect rest ih =>
    obtain ⟨hjobs, hkept, hevents⟩ := apply_jobs s effect
    obtain ⟨hjobs', hkept', hevents'⟩ := ih (s.apply effect)
    refine ⟨hjobs'.trans hjobs, hkept'.trans hkept, hevents'.trans ?_⟩
    have hsplit : eventsOf (effect :: rest) = eventsOf [effect] ++ eventsOf rest :=
      eventsOf_append [effect] rest
    rw [hevents, hsplit]
    exact List.foldl_append.symm

theorem adopt_jobs (s : Hub) (t : JobTable JobBody) :
    (s.adopt t).jobs = { t with effects := [] } ∧ (s.adopt t).kept = s.kept ∧
    (s.adopt t).jobEvents = s.jobEvents.broadcastAll (eventsOf t.effects) :=
  foldl_apply_jobs t.effects { s with jobs := { t with effects := [] } }

/-- The table has done what it wanted, and every number in it was given in turn. -/
structure Tidy (s : Hub) : Prop where
  jobs : s.jobs.Numbered
  settled : s.jobs.effects = []
  readers : s.jobEvents.Numbered

/-- What came of a stroke, or of some: the effects recount how the table has changed, and every
reader gets the events among them, if there is to be more. -/
structure Follows (s s' : Hub) (effects : List (JobEffect JobBody)) : Prop where
  tidy : s'.Tidy
  recounts : Recounts s.jobs.roll effects s'.jobs.roll
  nextId : s.jobEvents.nextId ≤ s'.jobEvents.nextId
  listens : ∀ receiver queue, s.jobEvents.Listens s.kept receiver queue →
    s'.jobEvents.Listens s'.kept receiver (queue ++ eventsOf effects)

theorem SameKeeping.follows (h : SameKeeping s s') (hs : s.Tidy) : Follows s s' [] where
  tidy := ⟨h.jobs ▸ hs.jobs, h.jobs ▸ hs.settled, h.jobEvents ▸ hs.readers⟩
  recounts := h.jobs ▸ .nothing _
  nextId := Nat.le_of_eq (by rw [h.jobEvents])
  listens receiver queue hl := by
    rw [h.jobEvents, h.kept]
    exact (List.append_nil queue).symm ▸ hl

theorem Follows.trans {s'' : Hub} {effects more : List (JobEffect JobBody)}
    (h : Follows s s' effects) (h' : Follows s' s'' more) : Follows s s'' (effects ++ more) where
  tidy := h'.tidy
  recounts := h.recounts.append h'.recounts
  nextId := Nat.le_trans h.nextId h'.nextId
  listens receiver queue hl := by
    rw [eventsOf_append, ← List.append_assoc]
    exact h'.listens receiver _ (h.listens receiver queue hl)

theorem Follows.then_same {s'' : Hub} {effects : List (JobEffect JobBody)}
    (h : Follows s s' effects) (h' : SameKeeping s' s'') : Follows s s'' effects :=
  List.append_nil effects ▸ h.trans (h'.follows h.tidy)

theorem follows_adopt {t : JobTable JobBody} {stops : List Nat} (hs : s.Tidy)
    (hkept : s.kept = true) (h : JobTable.Tells s.jobs t stops) :
    Follows s (s.adopt t) t.effects := by
  obtain ⟨effects, heffects, -, hrecounts⟩ := h.recounts
  rw [hs.settled, List.nil_append] at heffects
  obtain ⟨hjobs, hkept', hevents⟩ := adopt_jobs s t
  obtain ⟨hnumbered, hnext⟩ := hs.readers.broadcastAll (eventsOf t.effects)
  refine ⟨⟨?_, ?_, ?_⟩, ?_, ?_, fun receiver queue hl => ?_⟩
  · rw [hjobs]
    exact ⟨h.numbered.jobs, h.numbered.finished, h.numbered.queued⟩
  · rw [hjobs]
  · rw [hevents]
    exact hnumbered
  · rw [hjobs, heffects]
    exact hrecounts
  · rw [hevents]
    exact Nat.le_of_eq hnext.symm
  · rw [hevents, hkept', hkept]
    rw [hkept] at hl
    exact hl.broadcastAll _

theorem follows_subscribe (hs : s.Tidy) :
    Follows s ({ s with jobEvents := s.jobEvents.subscribe.2 } : Hub) [] where
  tidy := ⟨hs.jobs, hs.settled, hs.readers.subscribe⟩
  recounts := .nothing _
  nextId := Nat.le_succ _
  listens _ queue hl := (List.append_nil queue).symm ▸ hl.subscribe

def asked (s : Hub) : JobRequest → JobTable JobBody
  | .submit job => (s.jobs.submit s.now job).1
  | .abort id => (s.jobs.abort s.now id).1
  | .shutdown => (s.jobs.stopAll s.now).1
  | .get _ | .watch _ | .list | .subscribe => s.jobs

def handled (s : Hub) : Letter → JobTable JobBody
  | .request r _ _ => if s.kept then s.asked r else s.jobs
  | .report r => if s.kept then s.jobs.report s.now r else s.jobs

theorem handled_letters (s : Hub) (letters : List Letter) (l : Letter) :
    ({ s with letters } : Hub).handled l = s.handled l := by
  cases l with
  | request r task next => cases r <;> rfl
  | report r => rfl

theorem follows_respond (hs : s.Tidy) (hkept : s.kept = true) (r : JobRequest) :
    Follows s (s.respond r).1 (s.asked r).effects := by
  have hnone : (s.jobs.effects : List (JobEffect JobBody)) = [] := hs.settled
  cases r with
  | submit job => exact follows_adopt hs hkept (hs.jobs.tells_submit s.now job)
  | abort id => exact follows_adopt hs hkept (hs.jobs.tells_abort s.now id)
  | get id | watch id | list =>
    simp only [asked, hnone]
    exact SameKeeping.follows ⟨rfl, rfl, rfl, rfl⟩ hs
  | subscribe =>
    simp only [asked, hnone]
    exact follows_subscribe hs
  | shutdown =>
    have hwrite : SameKeeping s (s.write .info "Stopping job manager") := ⟨rfl, rfl, rfl, rfl⟩
    have hwritten := (hwrite.follows hs).tidy
    have h := follows_adopt hwritten hkept (hwritten.jobs.tells_stopAll s.now)
    exact (hwrite.follows hs).trans h

theorem follows_retire (hs : s.Tidy) : Follows s s.retire [] := by
  have hretired := sameKeeping_of_bare (bare_retire s)
  refine ⟨⟨hretired.jobs ▸ hs.jobs, hretired.jobs ▸ hs.settled, hretired.jobEvents ▸ hs.readers⟩,
    ?_, ?_, fun receiver queue hl => ?_⟩
  · rw [hretired.jobs]
    exact .nothing _
  · rw [hretired.jobEvents]
    exact Nat.le_refl s.jobEvents.nextId
  · rw [hretired.jobEvents, hretired.kept]
    exact (List.append_nil queue).symm ▸ hl.close

theorem sameKeeping_resume (s : Hub) (task : Nat) (routine : Routine Outcome) :
    SameKeeping s (s.resume task routine) := by
  have hgo : SameKeeping s (s.goOn task routine) := ⟨rfl, rfl, rfl, rfl⟩
  exact hgo.trans (sameKeeping_of_bare (bare_resume s task routine))

theorem follows_handle (hs : s.Tidy) (l : Letter) :
    Follows s (s.handle l) (s.handled l).effects := by
  cases hkept : s.kept with
  | false =>
    have hnone : (s.jobs.effects : List (JobEffect JobBody)) = [] := hs.settled
    cases l with
    | request r task next =>
      simp only [handle, handled, hkept, Bool.false_eq_true, if_false, hnone]
      exact (sameKeeping_resume s task _).follows hs
    | report r =>
      simp only [handle, handled, hkept, Bool.false_eq_true, if_false, hnone]
      exact SameKeeping.follows ⟨rfl, rfl, rfl, rfl⟩ hs
  | true =>
    cases l with
    | request r task next =>
      have h := follows_respond hs hkept r
      have hanswered : Follows s (s.answer r task next) (s.asked r).effects :=
        h.then_same (sameKeeping_resume _ task (next (.ok (s.respond r).2)))
      simp only [handled, hkept, if_true]
      rw [handle_request hkept]
      split
      next =>
        have hretired := hanswered.trans (follows_retire hanswered.tidy)
        rwa [List.append_nil] at hretired
      next => exact hanswered
    | report r =>
      simp only [handle, handled, hkept, if_true]
      exact follows_adopt hs hkept (hs.jobs.tells_report s.now r)

/-- What the table wants once the first letter of a kind is handled. -/
def wantedFirst (s : Hub) (p : Letter → Bool) : List (JobEffect JobBody) :=
  match s.letters.find? p with
  | none => []
  | some letter => (s.handled letter).effects

theorem follows_handleFirst (hs : s.Tidy) (p : Letter → Bool) :
    Follows s (s.handleFirst p) (s.wantedFirst p) := by
  unfold handleFirst wantedFirst
  cases s.letters.find? p with
  | none => exact SameKeeping.follows ⟨rfl, rfl, rfl, rfl⟩ hs
  | some letter =>
    let opened : Hub := { s with letters := s.letters.eraseP p }
    have hopened : SameKeeping s opened := ⟨rfl, rfl, rfl, rfl⟩
    have h := follows_handle (hopened.follows hs).tidy letter
    rw [handled_letters] at h
    exact (hopened.follows hs).trans h

def takes (s : Hub) (receiver : Nat) : Stroke → List Event
  | .take r => if r = receiver then (s.takeJobEvents receiver).1 else []
  | _ => []

def received (s : Hub) (receiver : Nat) : List Stroke → List Event
  | [] => []
  | stroke :: rest => s.takes receiver stroke ++ (s.does stroke).received receiver rest

def pending (s : Hub) (receiver : Nat) : List Event := (s.jobEvents.queue? receiver).getD []

/-- Whoever reads along and does not go away is told what happens to the table: what it takes, and
what then waits for it, is what had waited and the events among the effects. -/
structure Told (s s' : Hub) (taken : Nat → List Event) (gone : Nat → Prop)
    (effects : List (JobEffect JobBody)) : Prop where
  tidy : s'.Tidy
  recounts : Recounts s.jobs.roll effects s'.jobs.roll
  nextId : s.jobEvents.nextId ≤ s'.jobEvents.nextId
  listens : ∀ receiver, ¬ gone receiver → ∀ queue, s.jobEvents.Listens s.kept receiver queue →
    ∃ left, s'.jobEvents.Listens s'.kept receiver left ∧
      taken receiver ++ left = queue ++ eventsOf effects

theorem Follows.told {taken : Nat → List Event} {gone : Nat → Prop}
    {effects : List (JobEffect JobBody)} (h : Follows s s' effects)
    (htaken : ∀ receiver, taken receiver = []) : Told s s' taken gone effects where
  tidy := h.tidy
  recounts := h.recounts
  nextId := h.nextId
  listens receiver _ queue hl := ⟨_, h.listens receiver queue hl, by rw [htaken, List.nil_append]⟩

theorem Told.trans {s'' : Hub} {taken taken' : Nat → List Event} {gone gone' : Nat → Prop}
    {effects more : List (JobEffect JobBody)} (h : Told s s' taken gone effects)
    (h' : Told s' s'' taken' gone' more) :
    Told s s'' (fun r => taken r ++ taken' r) (fun r => gone r ∨ gone' r) (effects ++ more) where
  tidy := h'.tidy
  recounts := h.recounts.append h'.recounts
  nextId := Nat.le_trans h.nextId h'.nextId
  listens receiver hstays queue hl := by
    obtain ⟨hstays, hstays'⟩ := not_or.mp hstays
    obtain ⟨left, hl', htaken⟩ := h.listens receiver hstays queue hl
    obtain ⟨left', hl'', htaken'⟩ := h'.listens receiver hstays' left hl'
    refine ⟨left', hl'', ?_⟩
    rw [List.append_assoc, htaken', ← List.append_assoc, htaken, eventsOf_append,
      List.append_assoc]

def wantedIn (s : Hub) : Stroke → List (JobEffect JobBody)
  | .request => s.wantedFirst Letter.isRequest
  | .report => s.wantedFirst Letter.isReport
  | _ => []

theorem Tidy.told (hs : s.Tidy) (stroke : Stroke) :
    Told s (s.does stroke) (fun r => s.takes r stroke) (fun r => stroke = .drop r)
      (s.wantedIn stroke) := by
  cases stroke with
  | begin routine => exact ((sameKeeping_spawn s routine none).follows hs).told fun _ => rfl
  | act task => exact ((sameKeeping_act s task).follows hs).told fun _ => rfl
  | fall task => exact ((sameKeeping_fallBack s task).follows hs).told fun _ => rfl
  | request => exact (follows_handleFirst hs Letter.isRequest).told fun _ => rfl
  | report => exact (follows_handleFirst hs Letter.isReport).told fun _ => rfl
  | around other =>
    have haround : SameKeeping s (s.around other) := ⟨rfl, rfl, rfl, rfl⟩
    exact (haround.follows hs).told fun _ => rfl
  | take r =>
    refine ⟨⟨hs.jobs, hs.settled, hs.readers.setQueue []⟩, .nothing _, Nat.le_refl _,
      fun receiver _ queue hl => ?_⟩
    have hqueue := Broadcaster.queue?_setQueue s.jobEvents receiver r []
    by_cases hr : receiver = r
    · subst hr
      rw [if_pos rfl, hl.queue] at hqueue
      refine ⟨[], ⟨hqueue, hl.sender⟩, ?_⟩
      simp [takes, takeJobEvents, Broadcaster.takeAll, hl.queue, wantedIn, eventsOf]
    · rw [if_neg hr, hl.queue] at hqueue
      refine ⟨queue, ⟨hqueue, hl.sender⟩, ?_⟩
      simp [takes, Ne.symm hr, wantedIn, eventsOf]
  | drop r =>
    refine ⟨⟨hs.jobs, hs.settled, hs.readers.drop⟩, .nothing _, Nat.le_refl _,
      fun receiver hr queue hl => ⟨queue, ⟨?_, hl.sender⟩, by simp [takes, wantedIn, eventsOf]⟩⟩
    have hne : receiver ≠ r := fun heq => hr (heq ▸ rfl)
    exact (Broadcaster.queue?_drop_of_ne hne).trans hl.queue

def wanted (s : Hub) : List Stroke → List (JobEffect JobBody)
  | [] => []
  | stroke :: rest => s.wantedIn stroke ++ (s.does stroke).wanted rest

theorem Tidy.told_wanted (hs : s.Tidy) (strokes : List Stroke) :
    Told s (s.plays strokes) (fun r => s.received r strokes) (fun r => .drop r ∈ strokes)
      (s.wanted strokes) := by
  induction strokes generalizing s with
  | nil => exact (SameKeeping.follows ⟨rfl, rfl, rfl, rfl⟩ hs).told fun _ => rfl
  | cons stroke rest ih =>
    have h := hs.told stroke
    have hboth := h.trans (ih h.tidy)
    refine ⟨hboth.tidy, hboth.recounts, hboth.nextId, fun receiver hstays => ?_⟩
    refine hboth.listens receiver fun hgone => hstays ?_
    rcases hgone with rfl | hmem
    · exact List.mem_cons_self
    · exact List.mem_cons_of_mem _ hmem

theorem Tidy.told_plays (hs : s.Tidy) (strokes : List Stroke) : ∃ effects,
    Told s (s.plays strokes) (fun r => s.received r strokes) (fun r => .drop r ∈ strokes)
      effects := ⟨_, hs.told_wanted strokes⟩

theorem tidy_build (b : Builder) : b.build.Tidy where
  jobs := ⟨by simp [Builder.build, JobTable.ids], by simp [Builder.build],
    by simp [Builder.build]⟩
  settled := rfl
  readers := fun q hq => by simp [Builder.build] at hq

def takesIn (s : Hub) : Stroke → List (Nat × NewJob JobBody)
  | .request =>
    match s.letters.find? Letter.isRequest with
    | some (.request (.submit job) _ _) =>
      if s.kept ∧ s.jobs.standIn? job = none then [(s.jobs.nextId, job)] else []
    | _ => []
  | _ => []

def takenIn (s : Hub) : List Stroke → List (Nat × NewJob JobBody)
  | [] => []
  | stroke :: rest => s.takesIn stroke ++ (s.does stroke).takenIn rest

theorem Tidy.of_takesIn (hs : s.Tidy) {stroke : Stroke} {id : Nat} {job : NewJob JobBody}
    (h : (id, job) ∈ s.takesIn stroke) : s.jobs.nextId ≤ id ∧
      ∃ snapshot, (s.does stroke).jobs.snapshot? id = some snapshot ∧
        (JobTable.fresh s.now id job).snapshot.SameJob snapshot := by
  unfold takesIn at h
  split at h
  next =>
    split at h
    next job' task next hletter =>
      split at h
      next hopen =>
        obtain ⟨hkept, hnone⟩ := hopen
        obtain ⟨rfl, rfl⟩ := Prod.mk.inj (List.mem_singleton.mp h)
        obtain ⟨snapshot, hsnapshot, hsame⟩ := hs.jobs.submit_keeps s.now hnone
        refine ⟨Nat.le_refl _, snapshot, ?_, hsame⟩
        let opened : Hub := { s with letters := s.letters.eraseP Letter.isRequest }
        have hdoes : s.does .request = (opened.adopt (s.jobs.submit s.now job).1).resume task
            (next (.ok (s.jobs.submit s.now job).2)) :=
          (does_request hletter).trans (handle_request (s := opened) hkept _ _ _)
        rw [hdoes, (sameKeeping_resume _ _ _).jobs, (adopt_jobs opened _).1]
        exact hsnapshot
      next => simp at h
    next => simp at h
  next => simp at h

theorem mem_takenIn {strokes : List Stroke} {id : Nat} {job : NewJob JobBody}
    (h : (id, job) ∈ s.takenIn strokes) : ∃ before stroke after,
      strokes = before ++ stroke :: after ∧ (id, job) ∈ (s.plays before).takesIn stroke := by
  induction strokes generalizing s with
  | nil => cases h
  | cons stroke rest ih =>
    rcases List.mem_append.mp h with h | h
    · exact ⟨[], stroke, rest, rfl, h⟩
    · obtain ⟨before, stroke', after, rfl, hmem⟩ := ih h
      exact ⟨stroke :: before, stroke', after, rfl, hmem⟩

theorem received_append (s : Hub) (receiver : Nat) (strokes more : List Stroke) :
    s.received receiver (strokes ++ more) =
      s.received receiver strokes ++ (s.plays strokes).received receiver more := by
  induction strokes generalizing s with
  | nil => rfl
  | cons stroke rest ih =>
    rw [List.cons_append, received, ih, received, List.append_assoc]
    rfl

structure Subscribes (s : Hub) (receiver : Nat) : Prop where
  kept : s.kept = true
  next : s.jobEvents.nextId = receiver
  letter : ∃ task next, s.letters.find? Letter.isRequest = some (.request .subscribe task next)

/-- The events that a receiver has got in a run, taken or not. -/
def eventsFor (s : Hub) (receiver : Nat) (strokes : List Stroke) : List Event :=
  s.received receiver strokes ++ (s.plays strokes).pending receiver

theorem Tidy.subscribes (hs : s.Tidy) {receiver : Nat} (h : s.Subscribes receiver) :
    (s.does .request).Tidy ∧ (s.does .request).jobs = s.jobs ∧
      (s.does .request).jobEvents.Listens (s.does .request).kept receiver [] := by
  obtain ⟨task, next, hletter⟩ := h.letter
  let opened : Hub := { s with letters := s.letters.eraseP Letter.isRequest }
  have hdoes : s.does .request =
      ({ opened with jobEvents := s.jobEvents.subscribe.2 } : Hub).resume task
        (next (.ok s.jobEvents.subscribe.1)) :=
    (does_request hletter).trans (handle_request (s := opened) h.kept _ _ _)
  have hsame := sameKeeping_resume ({ opened with jobEvents := s.jobEvents.subscribe.2 } : Hub)
    task (next (.ok s.jobEvents.subscribe.1))
  rw [hdoes]
  refine ⟨⟨?_, ?_, ?_⟩, hsame.jobs, ?_⟩
  · rw [hsame.jobs]
    exact hs.jobs
  · rw [hsame.jobs]
    exact hs.settled
  · rw [hsame.jobEvents]
    exact hs.readers.subscribe
  · rw [hsame.jobEvents, ← h.next]
    exact ⟨Broadcaster.queue?_subscribe_new hs.readers, fun _ => by simp [Broadcaster.subscribe]⟩

theorem Told.eventsFor_eq {effects : List (JobEffect JobBody)} {receiver : Nat}
    {strokes : List Stroke}
    (h : Told s (s.plays strokes) (fun r => s.received r strokes) (fun r => .drop r ∈ strokes)
      effects)
    (hstays : .drop receiver ∉ strokes) (hl : s.jobEvents.Listens s.kept receiver []) :
    s.eventsFor receiver strokes = eventsOf effects := by
  obtain ⟨left, hleft, htaken⟩ := h.listens receiver hstays [] hl
  rw [eventsFor, pending, hleft.queue, Option.getD_some]
  exact htaken

/-- The events that a reader has got since it came tell faithfully what has become of the table. -/
structure Faithful (old new : JobTable JobBody) (taken : List (Nat × NewJob JobBody))
    (events : List Event) : Prop where
  /-- Who starts from the serialized snapshots of then and follows the events has those of now. -/
  replica : replay old.roll.published events = new.roll.published
  added : ∀ id job, (id, job) ∈ taken → job.transient = false →
    ∃ s : JobSnapshot, s.id = id ∧ s.state = .waiting ∧
      events.find? (fun e => e.jobId? == some id) = some (s.event .added)
  last : events.Pairwise fun e e' => e.type = .removed → e'.jobId? ≠ e.jobId?
  silent : ∀ id job, (id, job) ∈ taken → job.transient = true → ∀ e ∈ events, e.jobId? ≠ some id
  silentBefore : ∀ id s, old.snapshot? id = some s → s.transient = true →
    ∀ e ∈ events, e.jobId? ≠ some id
  shows : ∀ e ∈ events, ∃ (s : JobSnapshot) (type : EventType),
    e = s.event type ∧ s.transient = false

theorem Tidy.opens {receiver : Nat} {strokes : List Stroke} (hs : s.Tidy)
    (hl : s.jobEvents.Listens s.kept receiver []) (hstays : .drop receiver ∉ strokes)
    {id : Nat} {job : NewJob JobBody} (h : (id, job) ∈ s.takenIn strokes) :
    (job.transient = false → ∃ x : JobSnapshot, x.id = id ∧ x.state = .waiting ∧
      (s.eventsFor receiver strokes).find? (fun e => e.jobId? == some id) =
        some (x.event .added)) ∧
    (job.transient = true → ∀ e ∈ s.eventsFor receiver strokes, e.jobId? ≠ some id) := by
  obtain ⟨before, stroke, after, rfl, hmem⟩ := mem_takenIn h
  -- the run up to the submission, and the run after it
  have hsplit : before ++ stroke :: after = (before ++ [stroke]) ++ after := by simp
  obtain ⟨effects₀, htold₀⟩ := hs.told_plays before
  obtain ⟨effects, htold⟩ := hs.told_plays (before ++ [stroke])
  obtain ⟨more, hmore⟩ := htold.tidy.told_plays after
  have hplays : (s.plays before).does stroke = s.plays (before ++ [stroke]) :=
    (plays_append s before [stroke]).symm
  obtain ⟨hle, snapshot, hsnapshot, hsame⟩ := htold₀.tidy.of_takesIn hmem
  have ht : snapshot.transient = job.transient := hsame.transient
  rw [hplays] at hsnapshot
  have hnew : s.jobs.roll.next ≤ id := Nat.le_trans htold₀.recounts.narrates.next_le hle
  have hopens := htold.recounts.narrates.opens hs.jobs.bounded hnew
  have hevents : s.eventsFor receiver (before ++ stroke :: after) =
      eventsOf effects ++ eventsOf more := by
    have hboth := htold.trans hmore
    rw [← plays_append, ← hsplit] at hboth
    obtain ⟨left, hleft, htaken⟩ := hboth.listens receiver (by
      rw [not_or]
      exact ⟨fun hgone => hstays (hsplit ▸ List.mem_append_left _ hgone),
        fun hgone => hstays (hsplit ▸ List.mem_append_right _ hgone)⟩) [] hl
    rw [eventsFor, pending, hleft.queue, Option.getD_some, hsplit, received_append,
      ← eventsOf_append]
    exact htaken
  rw [hevents]
  constructor
  · intro htransient
    obtain ⟨e, he, hid⟩ := hopens.told snapshot hsnapshot (ht.trans htransient)
    cases hfirst : (eventsOf effects).find? fun e => e.jobId? == some id with
    | none => exact absurd hid (by simpa using List.find?_eq_none.mp hfirst e he)
    | some e' =>
      obtain ⟨x, hx, hstate, rfl⟩ := hopens.first e' hfirst
      exact ⟨x, hx, hstate, by rw [List.find?_append, hfirst, Option.some_or]⟩
  · intro htransient e he
    rcases List.mem_append.mp he with he | he
    · exact hopens.untold snapshot hsnapshot (ht.trans htransient) e he
    · exact hmore.recounts.narrates.silent_of_transient htold.tidy.jobs.bounded hsnapshot
        (ht.trans htransient) e he

/-- In any run, the events that a reader gets are a faithful replica of the table. -/
theorem job_events_are_faithful {b : Builder} {before after : List Stroke} {receiver : Nat}
    (hsubscribes : (b.build.plays before).Subscribes receiver)
    (hstays : .drop receiver ∉ after) :
    Faithful (b.build.plays before).jobs (((b.build.plays before).does .request).plays after).jobs
      (((b.build.plays before).does .request).takenIn after)
      (((b.build.plays before).does .request).eventsFor receiver after) := by
  obtain ⟨_, hbefore⟩ := (tidy_build b).told_plays before
  obtain ⟨hs, hjobs, hl⟩ := hbefore.tidy.subscribes hsubscribes
  generalize (b.build.plays before).does .request = s at hs hjobs hl
  rw [← hjobs]
  obtain ⟨effects, htold⟩ := hs.told_plays after
  have hevents := htold.eventsFor_eq hstays hl
  have hnarrates := htold.recounts.narrates
  refine ⟨?_, fun id job hmem ht => (hs.opens hl hstays hmem).1 ht, ?_,
    fun id job hmem ht => (hs.opens hl hstays hmem).2 ht, fun id x hx ht => ?_, fun e he => ?_⟩
  · rw [hevents]
    exact hnarrates.replay_eq hs.jobs.bounded
  · rw [hevents]
    exact hnarrates.removed_last hs.jobs.bounded
  · rw [hevents]
    exact hnarrates.silent_of_transient hs.jobs.bounded hx ht
  · rw [hevents] at he
    obtain ⟨x, type, rfl, ht, -⟩ := hnarrates.event_known hs.jobs.bounded e he
    exact ⟨x, type, rfl, ht⟩

def client (r : JobRequest) : Routine Outcome :=
  .act (.ask r) fun _ => .done (.returned .null)

/-- A hub that remembers no job that has finished. -/
def forgetful : Hub := Builder.build { settings := { maxRetainedJobs := 0 } }

def readerComes : List Stroke := [.begin (client .subscribe), .act 0]

def quickJob : List Stroke :=
  [.begin (client (.submit { method := "m", arguments := [], body := .script [] [] })), .act 1,
    .request, .take 0, .act 2, .report]

/-- A reader of a hub that remembers nothing gets four events on a job that is quickly done. -/
theorem job_events_are_faithful_to_quick_job :
    (forgetful.plays readerComes).Subscribes 0 ∧ .drop 0 ∉ quickJob ∧
    Faithful (forgetful.plays readerComes).jobs
      (((forgetful.plays readerComes).does .request).plays quickJob).jobs
      (((forgetful.plays readerComes).does .request).takenIn quickJob)
      (((forgetful.plays readerComes).does .request).eventsFor 0 quickJob) ∧
    (((forgetful.plays readerComes).does .request).eventsFor 0 quickJob).map Event.type =
      [.added, .changed, .changed, .removed] := by
  have hsubscribes : (forgetful.plays readerComes).Subscribes 0 := ⟨rfl, rfl, 0, _, rfl⟩
  have hstays : .drop 0 ∉ quickJob := by simp [quickJob]
  exact ⟨hsubscribes, hstays, job_events_are_faithful hsubscribes hstays, rfl⟩

end Hub

end Switchboard
