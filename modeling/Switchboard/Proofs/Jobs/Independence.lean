import Switchboard.Proofs.Jobs.Encounters

namespace Switchboard

namespace JobTable

variable {β : Type} {t t' : JobTable β} {id now : Nat} {lock other : String}

theorem queue?_setQueue_other (t : JobTable β) (q : LockQueue) (hne : lock ≠ other) :
    (t.setQueue lock q).queue? other = t.queue? other := by
  rw [queue?_setQueue, if_neg hne.symm]

theorem queue?_release_other (t : JobTable β) (now id : Nat)
    (hne : (t.snapshot? id).bind (·.lock) ≠ some other) :
    (t.release now id).queue? other = t.queue? other := by
  cases hlock : (t.snapshot? id).bind (·.lock) with
  | none => simp only [release, hlock]
  | some lock =>
    have hother : lock ≠ other := fun heq => hne (heq ▸ hlock)
    cases hq : t.queue? lock with
    | none => simp only [release, hlock, hq]
    | some q =>
      rw [release_eq t now id hlock hq]
      split
      next => exact queue?_setQueue_other t _ hother
      next =>
        split
        next => rw [queue?_dropQueue, if_neg hother.symm]
        next next rest _ =>
          have hpassed := sameQueues_start ((t.setQueue lock ⟨some next, rest⟩).log .debug
            s!"Lock {lock} passed from job {id} to job {next}") now next
          rw [hpassed.queue? other]
          exact queue?_setQueue_other t _ hother

theorem queue?_submit_other (t : JobTable β) (now : Nat) {job : NewJob β}
    (hne : job.lock ≠ some other) : (t.submit now job).1.queue? other = t.queue? other := by
  unfold submit
  split
  next => rfl
  next =>
    dsimp only
    split
    next lock hlock =>
      have hother : lock ≠ other := fun heq => hne (heq ▸ hlock)
      unfold queueUp
      dsimp only
      split
      next => rw [(sameQueues_start _ now _).queue?, queue?_setQueue_other _ _ hother,
        queue?_enter]
      next =>
        have hqueued (q : LockQueue) :
            ((t.enter now job).setQueue lock q).queue? other = t.queue? other := by
          rw [queue?_setQueue_other _ q hother, queue?_enter]
        split <;> exact hqueued _
    next => rw [(sameQueues_start _ now _).queue?, queue?_enter]

theorem queue?_abort_other (t : JobTable β) (now id : Nat)
    (hne : (t.snapshot? id).bind (·.lock) ≠ some other) :
    (t.abort now id).1.queue? other = t.queue? other := by
  have hleft := queue?_release_other t now id hne
  unfold abort
  split
  next => rfl
  next =>
    split
    next =>
      have hended := sameQueues_finishUnstarted (t.release now id) now id .aborted .aborted
      exact (hended.queue? other).trans hleft
    next => split <;> rfl
    next => rfl
    next => rfl
    next => rfl

theorem Sound.queue?_finish_other {e : JobEntry β} (h : t.Sound) (he : t.job? id = some e)
    (hrun : e.state = .running) (now : Nat) (outcome : Except CallError Json)
    (hne : e.snapshot.lock ≠ some other) :
    (t.finish now id outcome).queue? other = t.queue? other := by
  have hended := h.justEnded he hrun now outcome
  have hlock : ((t.noteEnd now id outcome e).snapshot? id).bind (·.lock) ≠ some other := by
    rw [snapshot?_eq hended.now_is, Option.bind_some, hended.lock]
    exact hne
  rw [finish_eq now outcome he, (sameQueues_retire _ id).queue?,
    queue?_release_other _ now id hlock, hended.same.queue?]

theorem queue?_lockTimedOut_other (t : JobTable β) (now id : Nat)
    (hne : (t.snapshot? id).bind (·.lock) ≠ some other) :
    (t.lockTimedOut now id).queue? other = t.queue? other := by
  unfold lockTimedOut
  split
  next => rfl
  next =>
    split
    next =>
      rw [(sameQueues_finishUnstarted _ now id _ _).queue?]
      exact queue?_release_other (t.log _ _) now id hne
    next => rfl

end JobTable

namespace Workshop

variable {β : Type} {w : Workshop β} {maxRetained id : Nat} {a : Act β} {lock : String}
  {e e' : JobEntry β} {held : Option String} {shown : List JobSnapshot}

theorem Sound.queue?_other (h : w.Sound) (hcan : w.Can a) (hone : a.stops = false)
    (hne : a.lock? w.table ≠ some lock) :
    (a.onTable w.table).queue? lock = w.table.queue? lock := by
  cases a with
  | submit now job => exact JobTable.queue?_submit_other w.table now hne
  | abort now id => exact JobTable.queue?_abort_other w.table now id hne
  | stop => cases hone
  | handle now before r after =>
    cases r with
    | progressed id percent description =>
      exact (JobTable.sameQueues_progress w.table id percent description).queue? lock
    | finished id outcome =>
      have howes := h.owes.perm (owed_handled hcan).symm
      obtain ⟨⟨_, x, hx, hrun, -⟩, -⟩ := (howes.running id).mp (by simp [JobReport.finished?])
      simp only [Act.lock?, Act.job?, JobReport.job, Option.bind_some,
        JobTable.snapshot?_eq hx] at hne
      exact h.table.queue?_finish_other hx hrun now outcome hne
    | lockTimedOut id => exact JobTable.queue?_lockTimedOut_other w.table now id hne
  | progress | endBody | timer => rfl

theorem job?_of_heard? {r : JobReport} (h : a.heard? = some r) (hsender : r.sender? = some id) :
    a.job? = some id := by
  cases a <;> cases h
  cases r <;> cases hsender <;> rfl

/-- An act about one job does nothing to a job that did not ask for the same lock. -/
theorem Meets.spares (h : Meets a held e shown e') (hone : a.stops = false)
    (hjob : a.job? ≠ some e.id) (hlock : e.state = .waiting → e.snapshot.lock ≠ held) :
    e' = e ∧ shown = [] := by
  have hconcerns : ¬ a.Concerns e.id := by
    rintro (habout | hall)
    · exact hjob habout
    · rw [hone] at hall
      cases hall
  cases h with
  | spared => exact ⟨rfl, rfl⟩
  | begins now hwait heq => exact absurd heq (hlock hwait)
  | reports percent description hrun hheard => exact absurd (job?_of_heard? hheard rfl) hjob
  | asked hrun hquiet habout => exact absurd habout hconcerns
  | settled now outcome hrun hheard => exact absurd (job?_of_heard? hheard rfl) hjob
  | dismissed now state error hwait hends habout => exact absurd habout hconcerns

/-- What an act about one job leaves alone. -/
structure Apart (w : Workshop β) (a : Act β) : Prop where
  queues : ∀ lock, a.lock? w.table ≠ some lock →
    (w.does a).table.queue? lock = w.table.queue? lock
  /-- Nothing is shown of a job that asked for another lock or for none, and its entry stays as it
  is, unless the job has ended and makes room for one that ended later. -/
  jobs : ∀ id e, w.table.job? id = some e → a.job? ≠ some id →
    (e.snapshot.lock = none ∨ e.snapshot.lock ≠ a.lock? w.table) →
    shownOf id (a.onTable w.table).effects = [] ∧
      ((w.does a).table.job? id = some e ∨ e.state.isTerminal = true ∧ id ∈ w.table.finished ∧
        (w.does a).table.job? id = none ∧ id ∉ (w.does a).table.finished)
  absent : ∀ id, w.table.job? id = none → id ≠ w.table.nextId →
    (w.does a).table.job? id = none ∧ shownOf id (a.onTable w.table).effects = []

/-- Whatever is done to one job of a table at work is nothing to the jobs and the queues of other
locks. -/
theorem locks_do_not_interfere (h : Reachable maxRetained w) (hcan : w.Can a)
    (hone : a.stops = false) : Apart w a := by
  have hsound := (sound_of_reachable h).1
  have hthen := hsound.does hcan hone
  have htable := does_table a hsound.settled
  refine ⟨fun lock hne => ?_, fun id e he hjob hlock => ?_, fun id he hnew => ?_⟩
  · rw [htable]
    exact hsound.queue?_other hcan hone hne
  · obtain ⟨shown, e', hmeets, hleft⟩ := hsound.encounters hcan he
    have hid : e.id = id := JobTable.job?_id he
    have hlock : e.state = .waiting → e.snapshot.lock ≠ a.lock? w.table := by
      intro hwait
      rcases hlock with hnone | hne
      · exact absurd ⟨e, he, hwait, hnone⟩ (hsound.table.orderly.locked id)
      · exact hne
    obtain ⟨rfl, rfl⟩ := hmeets.spares hone (hid.symm ▸ hjob) hlock
    refine ⟨hleft.shows.of_settled hsound.settled, ?_⟩
    rcases hleft.job? with hkept | ⟨hend, hgone⟩
    · left
      rw [htable]
      exact hkept
    · have hgone : (w.does a).table.job? id = none := by
        rw [htable]
        exact hgone
      have hwas := (hsound.table.remembers.ended id).mpr ⟨e', he, hend⟩
      rw [List.append_nil] at hwas
      refine .inr ⟨hend, hwas, hgone, fun hmem => ?_⟩
      obtain ⟨x, hx, -⟩ := (hthen.table.remembers.ended id).mp (List.mem_append_left [] hmem)
      cases hgone.symm.trans hx
  · rw [htable]
    rcases hsound.absent hcan he with hgone | ⟨heq, -⟩
    · exact hgone
    · exact absurd heq hnew

/-- After the rush a job with another lock has come, and the body of the last one that rushed has
ended. -/
def neighbours : Workshop Nat := (rush.submit 8 (lockedJob "M" 50)).endBody 4 (.ok .null)

def lastEnd : Act Nat := .handle 9 [] (.finished 4 (.ok .null)) []

theorem locks_do_not_interfere_with_neighbours : lastEnd.lock? neighbours.table = some "L" ∧
    (neighbours.does lastEnd).table.queue? "L" = none ∧
    (neighbours.does lastEnd).table.queue? "M" = some ⟨some 5, []⟩ ∧
    neighbours.table.finished = [1] ∧ (neighbours.does lastEnd).table.finished = [4] ∧
    Apart neighbours lastEnd := by
  have hcome := rush_reachable.tail (Step.submit _ 8 (lockedJob "M" 50))
  have hend := hcome.tail (Step.endBody _ 4 (.ok .null) (by decide))
  exact ⟨by decide, by decide, by decide, by decide, by decide,
    locks_do_not_interfere hend rfl rfl⟩

end Workshop

end Switchboard
