import Switchboard.Proofs.Hub.Waiters
import Switchboard.Proofs.Jobs.Telling

namespace Switchboard

/-- There is nothing left to abort: the job is gone or has ended, or it cannot be aborted. -/
structure JobRoll.Past (r : JobRoll) (id : Nat) : Prop where
  known : id < r.next
  ended : ∀ s, r.job id = some s → s.state.isTerminal = true ∨ s.abortable = false

theorem Narrates.past {r r' : JobRoll} {events : List Event} {id : Nat}
    (h : Narrates r events r') (hpast : r.Past id) : r'.Past id where
  known := Nat.lt_of_lt_of_le hpast.known h.next_le
  ended := by
    refine h.lasts (P := fun s => s.state.isTerminal = true ∨ s.abortable = false) ?_ hpast.known
      hpast.ended
    rintro s s' hs' (hend | hnot)
    · rcases hs'.state with heq | hcan
      · exact .inl (heq ▸ hend)
      · cases hstate : s.state <;> simp_all [JobState.isTerminal, JobState.canBecome]
    · exact .inr (hs'.abortable.trans hnot)

/-- What those who watch the jobs are shown is what the table knows. -/
structure JobBoard.Agrees (b : JobBoard) (r : JobRoll) : Prop where
  shown : ∀ id s, r.job id = some s → b.snapshot? id = some s
  concealed : ∀ id ∈ b.concealed, r.job id = none ∧ id < r.next

namespace JobBoard.Agrees

variable {b : JobBoard} {r r' : JobRoll} {id : Nat}

theorem see_publish {β : Type} (events : List Event) (b : JobBoard) :
    (events.map .publish : List (JobEffect β)).foldl JobBoard.see b = b := by
  induction events with
  | nil => rfl
  | cons e rest ih => exact ih

theorem reveal (h : b.Agrees r) (s : JobSnapshot)
    (hc : ∀ id ∈ b.concealed, r'.job id = none ∧ id < r'.next)
    (hjob : ∀ id, r'.job id = if id = s.id then some s else r.job id) :
    (b.reveal s).Agrees r' where
  shown id x hx := by
    rw [JobBoard.snapshot?_reveal]
    rw [hjob] at hx
    split
    next heq =>
      rw [if_pos heq] at hx
      exact hx
    next hne =>
      rw [if_neg hne] at hx
      exact h.shown id x hx
  concealed := hc

theorem recounts {β : Type} {effects : List (JobEffect β)} (h : b.Agrees r)
    (hr : r.Bounded) (hrecounts : Recounts r effects r') :
    (effects.foldl JobBoard.see b).Agrees r' := by
  induction hrecounts with
  | nothing => exact h
  | aside _ e he ih =>
    rw [List.foldl_append]
    cases e with
    | reveal s => exact he.elim
    | conceal id => exact he.elim
    | _ => exact ih
  | @entered r' _ hbefore s hid _ ih =>
    rw [List.foldl_append, List.foldl_cons, see_publish]
    refine ih.reveal s (fun id hc => ?_) fun _ => rfl
    obtain ⟨hnone, hlt⟩ := ih.concealed id hc
    exact ⟨(if_neg (by omega)).trans hnone, Nat.lt_succ_of_lt hlt⟩
  | changed _ s s' hs hs' ih =>
    rw [List.foldl_append, List.foldl_cons, see_publish]
    refine ih.reveal s' (fun id hc => ?_) fun _ => rfl
    obtain ⟨hnone, hlt⟩ := ih.concealed id hc
    refine ⟨(if_neg fun heq => ?_).trans hnone, hlt⟩
    rw [heq, hs'.id, hs] at hnone
    cases hnone
  | removed hbefore s hs ih =>
    rw [List.foldl_append, List.foldl_append, see_publish]
    refine ⟨fun id x hx => ?_, fun id hc => ?_⟩
    · simp only [JobRoll.erase] at hx
      split at hx
      next => cases hx
      next => exact ih.shown id x hx
    · rcases List.mem_cons.mp hc with rfl | hc
      · exact ⟨if_pos rfl, (hbefore.narrates.bounded hr _ s hs).2⟩
      · obtain ⟨hnone, hlt⟩ := ih.concealed id hc
        exact ⟨by simp only [JobRoll.erase, hnone, ite_self], hlt⟩
  | absent _ id hid hnone ih =>
    rw [List.foldl_append]
    refine ⟨ih.shown, fun j hc => ?_⟩
    rcases List.mem_cons.mp hc with rfl | hc
    · exact ⟨hnone, hid⟩
    · exact ih.concealed j hc

theorem past_of_ending {ending : Except CallError JobSnapshot} (h : b.Agrees r)
    (hopen : b.closed = false) (hid : id < r.next) (hending : b.ending? id = some ending) :
    r.Past id := by
  refine ⟨hid, fun s hs => ?_⟩
  have hshown := h.shown id s hs
  have hthere : b.isOver id = false := by
    cases hover : b.isOver id with
    | false => rfl
    | true =>
      have hmem : id ∈ b.concealed := by simpa [JobBoard.isOver, hopen] using hover
      rw [(h.concealed id hmem).1] at hs
      cases hs
  cases hend : s.state.isTerminal with
  | true => exact .inl rfl
  | false => simp [JobBoard.ending?, hshown, hend, hthere] at hending

end JobBoard.Agrees

namespace JobTable

variable {β : Type} {t t' : JobTable β} {id j now : Nat} {lock : String}

theorem Numbered.past_transition {edit : JobSnapshot → JobSnapshot} {state : JobState}
    (h : t.Numbered) (hid : id < t.nextId) (hstate : state = .aborted ∨ state = .failed)
    (hedit : IsEdit edit) : (t.transition id state edit).1.roll.Past id := by
  have htold := h.tells_transition id state hedit
  have hknown := Nat.lt_of_lt_of_le hid htold.nextId_le
  cases he : t.job? id with
  | none =>
    have hs : t.snapshot? id = none := by simp [snapshot?, he]
    refine ⟨hknown, fun s hjob => ?_⟩
    simp only [transition, hs] at hjob
    rw [show t.roll.job id = none from hs] at hjob
    cases hjob
  | some e =>
    cases hcan : e.snapshot.state.canBecome state with
    | true =>
      obtain ⟨hsame, -, -⟩ := transition_spec state edit he hcan (fun s => (hedit.same s).id)
      refine ⟨hknown, fun s hs => .inl ?_⟩
      cases Option.some.inj ((snapshot?_eq ((hsame.job? id).trans (if_pos rfl))).symm.trans hs)
      simp only [hedit.state]
      rcases hstate with rfl | rfl <;> rfl
    | false =>
      refine ⟨hknown, fun s hs => .inl ?_⟩
      simp only [transition, snapshot?_eq he, hcan] at hs
      cases Option.some.inj ((snapshot?_eq he).symm.trans hs)
      rcases hstate with rfl | rfl <;> cases hs : e.snapshot.state <;>
        simp_all [JobState.canBecome, JobState.isTerminal]

theorem Numbered.past_finishUnstarted {state : JobState} (h : t.Numbered) (hid : id < t.nextId)
    (now : Nat) (hstate : state = .aborted ∨ state = .failed) (error : CallError) :
    (t.finishUnstarted now id state error).roll.Past id := by
  have hedit := isEdit_dismiss now error
  have htaken := h.tells_takeBody id
  have hid' := Nat.lt_of_lt_of_le hid htaken.nextId_le
  have hended := htaken.numbered.tells_transition id state hedit
  have hpast := htaken.numbered.past_transition hid' hstate hedit
  obtain ⟨_, -, -, hrecounts⟩ := (hended.numbered.tells_retire hpast.known).recounts
  exact hrecounts.narrates.past hpast

theorem Tells.past {stops : List Nat} (h : Tells t t' stops) (hpast : t.roll.Past id) :
    t'.roll.Past id := by
  obtain ⟨_, -, -, hrecounts⟩ := h.recounts
  exact hrecounts.narrates.past hpast

theorem past_of_terminal {e : JobEntry β} (h : t.Numbered) (he : t.job? id = some e)
    (hend : e.state.isTerminal = true) : t.roll.Past id where
  known := h.lt_of_job? he
  ended s hs := by
    cases Option.some.inj ((snapshot?_eq he).symm.trans hs)
    exact .inl hend

theorem past_of_absent (hid : id < t.nextId) (he : t.job? id = none) : t.roll.Past id where
  known := hid
  ended s hs := by
    rw [show t.roll.job id = none by simp [roll, snapshot?, he]] at hs
    cases hs

/-- Once an abort was handled, the body was asked to stop or there is nothing left to abort. -/
theorem Numbered.past_abort (h : t.Numbered) (hid : id < t.nextId) (now : Nat) :
    id ∈ t.stopsOfAbort id ∨ (t.abort now id).1.roll.Past id := by
  have htold := h.tells_abort now id
  cases he : t.job? id with
  | none => exact .inr (htold.past (past_of_absent hid he))
  | some e =>
    cases hstate : e.state with
    | waiting =>
      refine .inr ?_
      simp only [abort, he, hstate]
      have hfreed := h.tells_release now id
      have hid' := Nat.lt_of_lt_of_le hid hfreed.nextId_le
      have hended := hfreed.numbered.tells_finishUnstarted hid' now .aborted .aborted
      exact (hended.numbered.tells_log .info s!"Job {id} aborted before it started").past
        (hfreed.numbered.past_finishUnstarted hid' now (.inl rfl) .aborted)
    | running =>
      cases ha : e.snapshot.abortable with
      | true => exact .inl (by simp [stopsOfAbort, he, hstate, ha])
      | false =>
        refine .inr (htold.past ⟨hid, fun s hs => ?_⟩)
        cases Option.some.inj ((snapshot?_eq he).symm.trans hs)
        exact .inr ha
    | success | failed | aborted =>
      exact .inr (htold.past (past_of_terminal h he (by rw [hstate]; rfl)))

theorem Numbered.past_foldl_finishUnstarted {ids : List Nat} (h : t.Numbered)
    (hids : ∀ j ∈ ids, j < t.nextId) (hid : id ∈ ids) (now : Nat) :
    (ids.foldl (fun t id => t.finishUnstarted now id .aborted .aborted) t).roll.Past id := by
  induction ids generalizing t with
  | nil => cases hid
  | cons first rest ih =>
    have hfirst := h.tells_finishUnstarted (hids first List.mem_cons_self) now .aborted .aborted
    have hrest : ∀ j ∈ rest, j < (t.finishUnstarted now first .aborted .aborted).nextId :=
      fun j hj => Nat.lt_of_lt_of_le (hids j (List.mem_cons_of_mem _ hj)) hfirst.nextId_le
    rcases List.mem_cons.mp hid with rfl | hid
    · have hpast := h.past_finishUnstarted (hids id List.mem_cons_self) now (.inl rfl) .aborted
      exact (hfirst.numbered.tells_foldl_calm _ hrest fun _ _ h hid =>
        h.tells_finishUnstarted hid now .aborted .aborted).past hpast
    · exact ih hfirst.numbered hrest hid

structure SameQueues (t t' : JobTable β) : Prop where
  locks : t'.locks = t.locks
  nextId : t'.nextId = t.nextId

theorem SameQueues.trans (h : SameQueues t t') {t'' : JobTable β} (h' : SameQueues t' t'') :
    SameQueues t t'' := ⟨h'.locks.trans h.locks, h'.nextId.trans h.nextId⟩

theorem SameQueues.queue? (h : SameQueues t t') (lock : String) :
    t'.queue? lock = t.queue? lock := by
  rw [JobTable.queue?, JobTable.queue?, h.locks]

theorem sameQueues_publish (t : JobTable β) (id : Nat) (type : EventType) :
    SameQueues t (t.publish id type) := by
  rw [publish_eq]
  exact ⟨rfl, rfl⟩

theorem sameQueues_change (t : JobTable β) (id : Nat) (s : JobSnapshot) :
    SameQueues t (t.change id s) := by
  have hstored : SameQueues t ((t.update id fun e => { e with snapshot := s }).want (.reveal s)) :=
    ⟨rfl, rfl⟩
  exact hstored.trans (sameQueues_publish _ id .changed)

theorem sameQueues_transition (t : JobTable β) (id : Nat) (next : JobState)
    (edit : JobSnapshot → JobSnapshot) : SameQueues t (t.transition id next edit).1 := by
  unfold transition
  split
  next => exact ⟨rfl, rfl⟩
  next =>
    split
    next => exact sameQueues_change _ _ _
    next => exact ⟨rfl, rfl⟩

theorem sameQueues_start (t : JobTable β) (now id : Nat) : SameQueues t (t.start now id) := by
  unfold start
  split
  next => exact ⟨rfl, rfl⟩
  next =>
    split
    next => exact ⟨rfl, rfl⟩
    next =>
      have hmoved := sameQueues_transition (t.takeBody id) id .running
        fun s => { s with timeStarted := some now }
      have htaken : SameQueues t (t.takeBody id) := ⟨rfl, rfl⟩
      dsimp only
      split
      next => exact (htaken.trans hmoved).trans ⟨rfl, rfl⟩
      next => exact htaken.trans hmoved

theorem sameQueues_foldl_evict (ids : List Nat) (t : JobTable β) :
    SameQueues t (ids.foldl evict t) := by
  induction ids generalizing t with
  | nil => exact ⟨rfl, rfl⟩
  | cons id rest ih =>
    have hgone : SameQueues (t.publish id .removed) (t.evict id) := ⟨rfl, rfl⟩
    exact ((sameQueues_publish t id .removed).trans hgone).trans (ih _)

theorem sameQueues_retire (t : JobTable β) (id : Nat) : SameQueues t (t.retire id) := by
  unfold retire
  split
  next => exact ⟨rfl, rfl⟩
  next =>
    have hlisted (finished : List Nat) : SameQueues t { t with finished } := ⟨rfl, rfl⟩
    exact (hlisted _).trans (sameQueues_foldl_evict _ _)

theorem sameQueues_finishUnstarted (t : JobTable β) (now id : Nat) (state : JobState)
    (error : CallError) : SameQueues t (t.finishUnstarted now id state error) := by
  have htaken : SameQueues t (t.takeBody id) := ⟨rfl, rfl⟩
  exact (htaken.trans (sameQueues_transition _ id state _)).trans (sameQueues_retire _ id)

theorem sameQueues_noteEnd (t : JobTable β) (now id : Nat) (outcome : Except CallError Json)
    (e : JobEntry β) : SameQueues t (t.noteEnd now id outcome e) := by
  have hlogged : SameQueues t (t.want (.log (endRecord id (settled e.cancelled outcome)))) :=
    ⟨rfl, rfl⟩
  exact hlogged.trans (sameQueues_transition _ id _ _)

theorem sameQueues_log (t : JobTable β) (level : LogLevel) (text : String) :
    SameQueues t (t.log level text) := ⟨rfl, rfl⟩

theorem sameQueues_progress (t : JobTable β) (id percent : Nat) (description : Option String) :
    SameQueues t (t.progress id percent description) := by
  unfold progress
  split
  next => exact ⟨rfl, rfl⟩
  next =>
    dsimp only
    split
    next => exact sameQueues_change t id _
    next => exact ⟨rfl, rfl⟩

theorem nextId_stopAll (t : JobTable β) (now : Nat) : (t.stopAll now).1.nextId = t.nextId := by
  have hask : ∀ (ids : List Nat) (t : JobTable β), (ids.foldl (fun t id =>
      (t.update id fun e => { e with cancelled := true }).want (.cancel id)) t).nextId =
        t.nextId := by
    intro ids
    induction ids with
    | nil => exact fun _ => rfl
    | cons id rest ih => exact fun t => ih _
  have hend : ∀ (ids : List Nat) (t : JobTable β), (ids.foldl (fun t id =>
      t.finishUnstarted now id .aborted .aborted) t).nextId = t.nextId := by
    intro ids
    induction ids with
    | nil => exact fun _ => rfl
    | cons id rest ih =>
      exact fun t => (ih _).trans (sameQueues_finishUnstarted t now id .aborted .aborted).nextId
  exact (hend _ _).trans (hask _ _)

theorem Numbered.past_stopAll (h : t.Numbered) (hid : id < t.nextId) (now : Nat) :
    id ∈ t.runningIds ∨ (t.stopAll now).1.roll.Past id := by
  have htold := h.tells_stopAll now
  cases he : t.job? id with
  | none => exact .inr (htold.past (past_of_absent hid he))
  | some e =>
    have hmem : ∀ p : JobEntry β → Bool, p e = true →
        id ∈ (t.jobs.filter p).map JobEntry.id := fun p hp =>
      List.mem_map.mpr ⟨e, List.mem_filter.mpr ⟨List.mem_of_find?_eq_some he, hp⟩, job?_id he⟩
    cases hstate : e.state with
    | waiting =>
      refine .inr ?_
      have hlow : ∀ j ∈ t.runningIds, j < t.nextId := fun j hj => by
        obtain ⟨x, hx, rfl⟩ := List.mem_map.mp hj
        exact h.jobs _ (List.mem_map_of_mem (List.mem_filter.mp hx).1)
      have hasked := h.tells_asks hlow
      exact hasked.numbered.past_foldl_finishUnstarted (fun j hj => by
        obtain ⟨x, hx, rfl⟩ := List.mem_map.mp hj
        exact Nat.lt_of_lt_of_le (h.jobs _ (List.mem_map_of_mem (List.mem_filter.mp hx).1))
          hasked.nextId_le) (hmem _ (by simp [hstate])) now
    | running => exact .inl (hmem _ (by simp [hstate]))
    | success | failed | aborted =>
      exact .inr (htold.past (past_of_terminal h he (by rw [hstate]; rfl)))

def Queued (t : JobTable β) (id : Nat) : Prop := ∃ lock q, t.queue? lock = some q ∧ id ∈ q.waiting

def Holds (t : JobTable β) (id : Nat) : Prop :=
  ∃ lock q, t.queue? lock = some q ∧ q.running = some id

/-- A job that waits for a lock waits on, or has got it. -/
def KeepsPlace (t t' : JobTable β) (id : Nat) : Prop := t.Queued id → t'.Queued id ∨ t'.Holds id

theorem SameQueues.keepsPlace (h : SameQueues t t') (id : Nat) : KeepsPlace t t' id := by
  rintro ⟨lock, q, hq, hid⟩
  exact .inl ⟨lock, q, (h.queue? lock).trans hq, hid⟩

theorem SameQueues.queued (h : SameQueues t t') (hq : t.Queued id) : t'.Queued id := by
  obtain ⟨lock, q, hq, hid⟩ := hq
  exact ⟨lock, q, (h.queue? lock).trans hq, hid⟩

theorem SameQueues.holds (h : SameQueues t t') (hq : t.Holds id) : t'.Holds id := by
  obtain ⟨lock, q, hq, hid⟩ := hq
  exact ⟨lock, q, (h.queue? lock).trans hq, hid⟩

theorem KeepsPlace.then_same (h : KeepsPlace t t' id) {t'' : JobTable β}
    (h' : SameQueues t' t'') : KeepsPlace t t'' id := fun hq =>
  (h hq).imp h'.queued h'.holds

theorem SameQueues.then_keeps (h : SameQueues t t') {t'' : JobTable β}
    (h' : KeepsPlace t' t'' id) : KeepsPlace t t'' id := fun hq => h' (h.queued hq)

theorem keepsPlace_setQueue {q' : LockQueue}
    (hq' : ∀ q, t.queue? lock = some q → id ∈ q.waiting → id ∈ q'.waiting ∨ q'.running = some id) :
    KeepsPlace t (t.setQueue lock q') id := by
  rintro ⟨other, q, hq, hid⟩
  by_cases hlock : other = lock
  · subst hlock
    have hnow : (t.setQueue other q').queue? other = some q' :=
      (queue?_setQueue t other other q').trans (if_pos rfl)
    exact (hq' q hq hid).imp (fun hw => ⟨other, q', hnow, hw⟩) fun hr => ⟨other, q', hnow, hr⟩
  · exact .inl ⟨other, q, ((queue?_setQueue t lock other q').trans (if_neg hlock)).trans hq, hid⟩

/-- When a job leaves the queue of its lock, every other one waits on or gets the lock. -/
theorem keepsPlace_release (now : Nat) (hne : j ≠ id) : KeepsPlace t (t.release now id) j := by
  cases hlock : (t.snapshot? id).bind (·.lock) with
  | none =>
    simp only [release, hlock]
    exact SameQueues.keepsPlace ⟨rfl, rfl⟩ j
  | some lock =>
    cases hq : t.queue? lock with
    | none =>
      simp only [release, hlock, hq]
      exact SameQueues.keepsPlace ⟨rfl, rfl⟩ j
    | some q =>
      have hstays : ∀ q', t.queue? lock = some q' → j ∈ q'.waiting →
          j ∈ (q.without id).waiting := by
        intro q' hq' hj
        cases Option.some.inj (hq.symm.trans hq')
        unfold LockQueue.without
        split
        next => exact hj
        next => exact List.mem_filter.mpr ⟨hj, by simpa using hne⟩
      rw [release_eq t now id hlock hq]
      split
      next => exact keepsPlace_setQueue fun q' hq' hj => .inl (hstays q' hq' hj)
      next =>
        split
        next hnone =>
          rintro ⟨other, q', hq', hj⟩
          by_cases hother : other = lock
          · subst hother
            have hmem := hstays q' hq' hj
            rw [hnone] at hmem
            cases hmem
          · exact .inl ⟨other, q', ((queue?_dropQueue t lock other).trans (if_neg hother)).trans hq',
              hj⟩
        next next waiting hnext =>
          refine ((keepsPlace_setQueue fun q' hq' hj => ?_).then_same
            (sameQueues_log _ .debug _)).then_same (sameQueues_start _ now next)
          have hmem := hstays q' hq' hj
          rw [hnext] at hmem
          rcases List.mem_cons.mp hmem with rfl | hmem
          · exact .inr rfl
          · exact .inl hmem

theorem keepsPlace_submit (now : Nat) (job : NewJob β) (id : Nat) (hnew : t.nextId ∉ t.ids) :
    KeepsPlace t (t.submit now job).1 id := by
  unfold submit
  split
  next => exact SameQueues.keepsPlace ⟨rfl, rfl⟩ id
  next =>
    obtain ⟨-, -, hlocks, -⟩ := enter_spec now job hnew
    have hkeeps : ∀ {t' : JobTable β}, KeepsPlace (t.enter now job) t' id → KeepsPlace t t' id := by
      rintro t' h ⟨lock, q, hq, hid⟩
      refine h ⟨lock, q, ?_, hid⟩
      rw [queue?, hlocks]
      exact hq
    dsimp only
    split
    next lock _ =>
      refine hkeeps ?_
      unfold queueUp
      dsimp only
      split
      next =>
        exact (keepsPlace_setQueue fun q hq hid => .inl (by simpa [hq] using hid)).then_same
          (sameQueues_start _ now t.nextId)
      next =>
        have hjoined : KeepsPlace (t.enter now job) ((t.enter now job).setQueue lock
            { ((t.enter now job).queue? lock).getD {} with
              waiting := (((t.enter now job).queue? lock).getD {}).waiting ++ [t.nextId] }) id :=
          keepsPlace_setQueue fun q hq hid => .inl (by simp [hq, hid])
        split
        next => exact hjoined.then_same ⟨rfl, rfl⟩
        next => exact hjoined.then_same ⟨rfl, rfl⟩
    next => exact hkeeps ((sameQueues_start _ now t.nextId).keepsPlace id)

theorem keepsPlace_abort (now : Nat) (hne : j ≠ id) : KeepsPlace t (t.abort now id).1 j := by
  unfold abort
  split
  next => exact SameQueues.keepsPlace ⟨rfl, rfl⟩ j
  next =>
    split
    next =>
      exact ((keepsPlace_release now hne).then_same
        (sameQueues_finishUnstarted _ now id .aborted .aborted)).then_same ⟨rfl, rfl⟩
    next => split <;> exact SameQueues.keepsPlace ⟨rfl, rfl⟩ j
    all_goals exact SameQueues.keepsPlace ⟨rfl, rfl⟩ j

end JobTable

def JobReport.job : JobReport → Nat
  | .progressed id _ _ => id
  | .finished id _ => id
  | .lockTimedOut id => id

theorem JobTable.keepsPlace_report {β : Type} {t : JobTable β} {j : Nat} (now : Nat)
    (r : JobReport) (hne : j ≠ r.job) : KeepsPlace t (t.report now r) j := by
  cases r with
  | progressed id percent description =>
    exact (sameQueues_progress t id percent description).keepsPlace j
  | finished id outcome =>
    show KeepsPlace t (t.finish now id outcome) j
    cases he : t.job? id with
    | none =>
      rw [finish, he]
      exact fun hq => .inl hq
    | some e =>
      rw [finish_eq now outcome he]
      exact ((sameQueues_noteEnd t now id outcome e).then_keeps
        (keepsPlace_release now hne)).then_same (sameQueues_retire _ id)
  | lockTimedOut id =>
    show KeepsPlace t (t.lockTimedOut now id) j
    unfold lockTimedOut
    split
    next => exact fun hq => .inl hq
    next =>
      split
      next =>
        exact ((sameQueues_log t .warn _).then_keeps (keepsPlace_release now hne)).then_same
          (sameQueues_finishUnstarted _ now id _ _)
      next => exact fun hq => .inl hq

end Switchboard
