import Switchboard.Proofs.Jobs.Handover
import Switchboard.Proofs.Jobs.Retention

namespace Switchboard

/-- What becomes of a job when the jobs are stopped. -/
def JobEntry.stopped {β : Type} (now : Nat) (e : JobEntry β) : JobEntry β :=
  match e.state with
  | .waiting => e.dismissed now .aborted .aborted
  | .running => e.asked
  | .success | .failed | .aborted => e

namespace JobTable

variable {β : Type} {t t' t'' : JobTable β} {id now : Nat} {e : JobEntry β}
  {es : List (JobEntry β)} {f g : JobEntry β → JobEntry β}

def Sheds (t t' : JobTable β) (f : JobEntry β → JobEntry β) : Prop :=
  ∀ id, t'.job? id = (t.job? id).map f ∨
    t'.job? id = none ∧ ∃ e, t.job? id = some e ∧ (f e).state.isTerminal = true

theorem Sheds.trans (h : Sheds t t' f) (h' : Sheds t' t'' g)
    (hg : ∀ e, e.state.isTerminal = true → (g e).state.isTerminal = true) :
    Sheds t t'' (g ∘ f) := by
  intro id
  rcases h id with hid | ⟨hid, e, he, hend⟩
  · rcases h' id with hid' | ⟨hid', x, hx, hend⟩
    · exact .inl (by rw [hid', hid, Option.map_map])
    · obtain ⟨e, he, rfl⟩ := Option.map_eq_some_iff.mp (hid.symm.trans hx)
      exact .inr ⟨hid', e, he, hend⟩
  · refine .inr ⟨?_, e, he, hg _ hend⟩
    rcases h' id with hid' | ⟨hid', -⟩
    · rw [hid', hid, Option.map_none]
    · exact hid'

def callingOff (now : Nat) (ids : List Nat) (e : JobEntry β) : JobEntry β :=
  if e.id ∈ ids then e.dismissed now .aborted .aborted else e

/-- Some jobs that wait are called off, one after another. -/
structure CallsOff (now : Nat) (es : List (JobEntry β)) (t t' : JobTable β) : Prop where
  remembers : t'.Remembers []
  sheds : Sheds t t' (callingOff now (es.map JobEntry.id))
  finished : t'.finished = (t.finished ++ lastingIds (es.map (·.snapshot))).rtake t.maxRetained
  maxRetained : t'.maxRetained = t.maxRetained
  reveals : t'.reveals =
    t.reveals ++ es.map fun e => (e.dismissed now .aborted .aborted).snapshot
  starts : t'.starts = t.starts

theorem Remembers.callsOff_none (h : t.Remembers []) (now : Nat) : CallsOff now [] t t where
  remembers := h
  sheds id := .inl (by cases t.job? id <;> simp [callingOff])
  finished := by
    rw [List.map_nil, lastingIds, List.filter_nil, List.map_nil, List.append_nil,
      rtake_of_length_le h.few]
  maxRetained := rfl
  reveals := (List.append_nil _).symm
  starts := rfl

theorem Remembers.callsOff_one (h : t.Remembers []) (he : t.job? e.id = some e)
    (hwait : e.state = .waiting) (now : Nat) : CallsOff now [e] t (t.callOff now e.id) := by
  have hnext : e.state.canBecome .aborted = true := hwait ▸ rfl
  obtain ⟨t', hsame, hstarts, heq⟩ := finishUnstarted_spec now .aborted he hnext
  have hshown := reveals_finishUnstarted now .aborted he hnext
  have hended : JustEnded t t' e.id e (e.dismissed now .aborted .aborted) :=
    ⟨he, hsame, rfl, rfl, rfl, hstarts⟩
  have hlate := h.just_ended hended (by rw [hwait]; rfl)
  obtain ⟨gone, hforgets, hover⟩ := retire_forgets hlate
  have hnow := hended.now_is
  have hjob : ∀ j, t'.job? j = (t.job? j).map (callingOff now [e.id]) := by
    intro j
    rw [hsame.job?]
    by_cases hj : j = e.id
    · rw [if_pos hj, hj, he, Option.map_some, callingOff, if_pos (List.mem_singleton_self _)]
    · rw [if_neg hj]
      cases hx : t.job? j with
      | none => rfl
      | some x =>
        have hid : x.id = j := job?_id hx
        rw [Option.map_some, callingOff, if_neg (by simpa [hid] using hj)]
  rw [callOff, heq] at *
  refine ⟨hlate.retire, fun j => ?_, ?_, hforgets.maxRetained.trans hsame.maxRetained, hshown,
    hforgets.starts.trans hstarts⟩
  · rw [hforgets.job?]
    split
    next hgone =>
      -- another job may have to make room, but only one that has ended
      obtain ⟨x, hx, hend⟩ := hover j hgone
      rw [hjob] at hx
      obtain ⟨y, hy, rfl⟩ := Option.map_eq_some_iff.mp hx
      exact .inr ⟨rfl, y, hy, hend⟩
    next => exact .inl (hjob j)
  · rw [finished_retire hnow hlate.few, hsame.finished, hsame.maxRetained, List.map_singleton,
      lastingIds_singleton, lastingIds_singleton]
    rfl

theorem CallsOff.cons {rest : List (JobEntry β)} (h : CallsOff now [e] t t')
    (h' : CallsOff now rest t' t'') (hnot : e.id ∉ rest.map JobEntry.id) :
    CallsOff now (e :: rest) t t'' where
  remembers := h'.remembers
  sheds := by
    have hboth : callingOff now ((e :: rest).map JobEntry.id) =
        callingOff (β := β) now (rest.map JobEntry.id) ∘ callingOff now [e.id] := by
      funext x
      unfold callingOff Function.comp
      by_cases hx : x.id = e.id
      -- it is called off once
      · have hkept : (x.dismissed now .aborted .aborted).id = x.id := rfl
        simp [hx, hkept, hnot]
      · simp [hx]
    rw [hboth]
    refine h.sheds.trans h'.sheds fun x hx => ?_
    unfold callingOff
    split
    next => rfl
    next => exact hx
  finished := by
    rw [h'.finished, h.finished, h.maxRetained, rtake_rtake_append, List.append_assoc,
      ← lastingIds_append]
    rfl
  maxRetained := h'.maxRetained.trans h.maxRetained
  reveals := by
    rw [h'.reveals, h.reveals, List.append_assoc]
    rfl
  starts := h'.starts.trans h.starts

theorem Remembers.callsOff_all (h : t.Remembers [])
    (hes : ∀ e ∈ es, t.job? e.id = some e ∧ e.state = .waiting)
    (hnodup : (es.map JobEntry.id).Nodup) (now : Nat) :
    CallsOff now es t ((es.map JobEntry.id).foldl (callOff now) t) := by
  induction es generalizing t with
  | nil => exact h.callsOff_none now
  | cons e rest ih =>
    obtain ⟨he, hwait⟩ := hes e List.mem_cons_self
    obtain ⟨hnot, hrest⟩ := List.nodup_cons.mp hnodup
    obtain ⟨-, hstay⟩ := h.dismissed he hwait now
    have hfirst := h.callsOff_one he hwait now
    refine hfirst.cons (ih hfirst.remembers (fun x hx => ?_) hrest) hnot
    obtain ⟨hjob, hxwait⟩ := hes x (List.mem_cons_of_mem _ hx)
    have hne : x.id ≠ e.id := fun heq => hnot (heq ▸ List.mem_map_of_mem hx)
    exact ⟨hstay x.id x hjob (by rw [hxwait]; rfl) hne, hxwait⟩

theorem asks_same (ids : List Nat) (t : JobTable β) :
    (ids.foldl ask t).finished = t.finished ∧ (ids.foldl ask t).maxRetained = t.maxRetained ∧
      (ids.foldl ask t).reveals = t.reveals ∧ (ids.foldl ask t).starts = t.starts := by
  induction ids generalizing t with
  | nil => exact ⟨rfl, rfl, rfl, rfl⟩
  | cons id rest ih =>
    obtain ⟨hfinished, hmax, hreveals, hstarts⟩ := ih (t.ask id)
    refine ⟨hfinished, hmax, hreveals.trans ?_, hstarts.trans ?_⟩
    · rw [ask, want_eq, reveals_wants]
      exact List.append_nil _
    · rw [ask, want_eq, starts_wants, starts_update]
      exact List.append_nil _

theorem mem_filter_ids_iff {p : JobEntry β → Bool} (h : t.ids.Pairwise (· < ·))
    (he : t.job? id = some e) : id ∈ (t.jobs.filter p).map JobEntry.id ↔ p e = true := by
  refine ⟨fun hid => ?_, fun hp => ?_⟩
  · obtain ⟨x, hx, hp⟩ := job?_of_mem_filter h hid
    cases he.symm.trans hx
    exact hp
  · have hmem := List.mem_filter.mpr ⟨List.mem_of_find?_eq_some he, hp⟩
    exact job?_id he ▸ List.mem_map_of_mem hmem

theorem mem_runningIds_iff (h : t.ids.Pairwise (· < ·)) (he : t.job? id = some e) :
    id ∈ t.runningIds ↔ e.state = .running :=
  (mem_filter_ids_iff h he).trans decide_eq_true_iff

theorem mem_waitingIds_iff (h : t.ids.Pairwise (· < ·)) (he : t.job? id = some e) :
    id ∈ t.waitingIds ↔ e.state = .waiting :=
  (mem_filter_ids_iff h he).trans decide_eq_true_iff

/-- What is left of a table once the jobs are stopped. -/
structure ShutsDown (t : JobTable β) (now : Nat) (t' : JobTable β) : Prop where
  /-- The waiting jobs end, the running ones are asked to stop, whether they can be aborted or not,
  and the others stay as they are. Who has ended then and is not remembered is forgotten. -/
  jobs : ∀ id, t'.job? id = (t.job? id).bind fun e =>
    if (e.stopped now).state.isTerminal = true ∧ id ∉ t'.finished then none
    else some (e.stopped now)
  finished : t'.finished =
    (t.finished ++ lastingIds (t.snapshots.filter fun s => s.state = .waiting)).rtake t.maxRetained
  shown : t'.reveals = (t.jobs.filter fun e => e.state = .waiting).map fun e =>
    (e.dismissed now .aborted .aborted).snapshot
  asked : stopsOf t'.effects = (t.snapshots.filter fun s => s.state = .running).map (·.id)
  starts : t'.starts = []
  locks : t'.locks = []
  idle : ∀ e ∈ t'.jobs, e.state ≠ .waiting ∧ e.body = none

theorem Orderly.queue?_of_mem {lock : String} {q : LockQueue} (h : t.Orderly)
    (hq : (lock, q) ∈ t.locks) : t.queue? lock = some q := by
  obtain ⟨before, after, heq⟩ := List.append_of_mem hq
  have hnames := h.names
  rw [heq, List.map_append, List.map_cons] at hnames
  refine List.lookup_eq_some_iff.mpr ⟨before, after, heq, fun p hp => ?_⟩
  have hne := (List.nodup_append.mp hnames).2.2 p.1 (List.mem_map_of_mem hp) lock
    List.mem_cons_self
  exact bne_iff_ne.mpr (Ne.symm hne)

theorem Sound.numbered (h : t.Sound) : t.Numbered where
  jobs id hid := (h.orderly.numbered id hid).2
  finished id hid := by
    obtain ⟨e, he, -⟩ := (h.remembers.ended id).mp (List.mem_append_left [] hid)
    exact h.inOrder.low_of_job? he
  queued q hq id hid := by
    obtain ⟨lock, q⟩ := q
    obtain ⟨holder, hholder, -, hruns, hwaits⟩ := h.orderly.queue?_of_mem hq ▸ h.orderly.queues lock
    rcases List.mem_append.mp hid with hid | hid
    · rw [hholder, Option.toList_some, List.mem_singleton] at hid
      exact (h.orderly.numbered id ((hruns id).mpr hid).mem_ids).2
    · exact (h.orderly.numbered id ((hwaits id).mpr hid).mem_ids).2

theorem Sound.callsOff_waiting (h : t.Sound) (now : Nat) :
    CallsOff now (t.jobs.filter fun e => e.state = .waiting) (t.runningIds.foldl ask t)
      (t.waitingIds.foldl (callOff now) (t.runningIds.foldl ask t)) := by
  have hasked : (t.runningIds.foldl ask t).Sound := (h.asked fun id hid => by
    obtain ⟨e, he, hrun⟩ := job?_of_mem_filter h.orderly.sorted hid
    exact ⟨_, e, he, of_decide_eq_true hrun, rfl⟩).1
  refine hasked.remembers.callsOff_all (fun e he => ?_) h.orderly.nodup_waitingIds now
  obtain ⟨hmem, hwait⟩ := List.mem_filter.mp he
  have hwait : e.state = .waiting := of_decide_eq_true hwait
  have hjob := job?_of_mem h.orderly.sorted hmem
  have hnot : e.id ∉ t.runningIds := fun hid => by
    rw [mem_runningIds_iff h.orderly.sorted hjob, hwait] at hid
    cases hid
  exact ⟨by rw [job?_asks, hjob, Option.map_some, if_neg hnot], hwait⟩

theorem stopped_eq (h : t.ids.Pairwise (· < ·)) (he : t.job? id = some e) (now : Nat) :
    callingOff now t.waitingIds (if id ∈ t.runningIds then e.asked else e) = e.stopped now := by
  have hid : e.id = id := job?_id he
  have hrun := mem_runningIds_iff h he
  have hwait := mem_waitingIds_iff h he
  unfold JobEntry.stopped callingOff
  cases hs : e.state with
  | waiting => simp [hrun, hwait, hs, hid]
  | running =>
    have hasked : e.asked.id = id := hid
    simp [hrun, hwait, hs, hasked]
  | success | failed | aborted => simp [hrun, hwait, hs, hid]

theorem stopped_idle (hbody : e.body.isSome = true ↔ e.state = .waiting) (now : Nat) :
    (e.stopped now).state ≠ .waiting ∧ (e.stopped now).body = none := by
  unfold JobEntry.stopped
  cases hs : e.state with
  | waiting => exact ⟨nofun, rfl⟩
  | running | success | failed | aborted =>
    have hnone : e.body = none := by simpa [hs] using hbody
    refine ⟨fun hwait => ?_, hnone⟩
    have hwait : e.state = .waiting := hwait
    rw [hs] at hwait
    cases hwait

theorem CallsOff.job? {e' : JobEntry β} (h : CallsOff now es t t') (he : t.job? id = some e)
    (he' : callingOff now (es.map JobEntry.id) e = e') :
    t'.job? id = if e'.state.isTerminal = true ∧ id ∉ t'.finished then none else some e' := by
  subst he'
  have hended := h.remembers.ended id
  rw [List.append_nil] at hended
  rcases h.sheds id with hkept | ⟨hnone, x, hx, hend⟩
  · rw [he, Option.map_some] at hkept
    rw [hkept, if_neg]
    rintro ⟨hend, hnot⟩
    exact hnot (hended.mpr ⟨_, hkept, hend⟩)
  · cases he.symm.trans hx
    rw [hnone, if_pos]
    refine ⟨hend, fun hid => ?_⟩
    obtain ⟨x, hx, -⟩ := hended.mp hid
    cases hnone.symm.trans hx

theorem Sound.shutsDown (h : t.Sound) (hsettled : t.effects = []) (now : Nat) :
    ShutsDown t now (t.stopAll now).1 := by
  have hoff := h.callsOff_waiting now
  obtain ⟨hfinished, hmax, hreveals, hstarts⟩ := asks_same t.runningIds t
  obtain ⟨effects, heffects, hstops, -⟩ := (h.numbered.tells_stopAll now).recounts
  have hjobs : ∀ id, (t.stopAll now).1.job? id = (t.job? id).bind fun e =>
      if (e.stopped now).state.isTerminal = true ∧ id ∉ (t.stopAll now).1.finished then none
      else some (e.stopped now) := by
    intro id
    cases he : t.job? id with
    | none =>
      have hsheds := hoff.sheds id
      simp only [job?_asks, he, Option.map_none, reduceCtorEq, false_and, exists_false, and_false,
        or_false] at hsheds
      exact hsheds
    | some e =>
      have hasked := (job?_asks t.runningIds t id).trans (congrArg (Option.map _) he)
      exact hoff.job? hasked (stopped_eq h.orderly.sorted he now)
  refine ⟨hjobs, ?_, ?_, ?_, ?_, rfl, fun e he => ?_⟩
  · refine hoff.finished.trans ?_
    rw [hfinished, hmax, snapshots, List.filter_map]
    rfl
  · refine hoff.reveals.trans ?_
    rw [hreveals, reveals, hsettled]
    rfl
  · rw [heffects, hsettled, List.nil_append, hstops, snapshots, List.filter_map, List.map_map]
    rfl
  · refine hoff.starts.trans (hstarts.trans ?_)
    rw [starts, hsettled]
    rfl
  · have hsorted := (h.inOrder.deeds (h.deeds_stopAll now)).sorted
    have hjob := (hjobs e.id).symm.trans (job?_of_mem hsorted he)
    obtain ⟨x, hx, hkept⟩ := Option.bind_eq_some_iff.mp hjob
    split at hkept
    next => cases hkept
    next =>
      cases hkept
      exact stopped_idle (h.orderly.bodies _ x hx) now

end JobTable

namespace Workshop

variable {β : Type} {w : Workshop β} {maxRetained : Nat}

/-- Whenever the jobs are stopped, all that wait or run are counted, and no job that waits then was
or is started. -/
theorem stopAll_shuts_down (h : Reachable maxRetained w) (now : Nat) :
    (w.table.stopAll now).2 = (w.table.snapshots.countP fun s => s.state = .waiting) +
        (w.table.snapshots.countP fun s => s.state = .running) ∧
      w.table.ShutsDown now (w.table.stopAll now).1 ∧
      ∀ held id, w.table.Has .waiting held id →
        id ∉ (w.adopt (w.table.stopAll now).1).started.map Prod.fst := by
  have hsound := (sound_of_reachable h).1
  have hdown := hsound.table.shutsDown hsound.settled now
  refine ⟨?_, hdown, fun held id hwait hstarted => ?_⟩
  · rw [JobTable.stopAll_eq, Nat.add_comm]
    simp only [JobTable.waitingIds, JobTable.runningIds, JobTable.snapshots,
      List.countP_eq_length_filter, List.filter_map, List.length_map]
    rfl
  · rw [adopt, hdown.starts, List.append_nil] at hstarted
    obtain ⟨s, hs, rfl⟩ := List.mem_map.mp hstarted
    exact hsound.ledger.gone s hs held hwait

/-- The first job has ended, the second has the lock, and the others wait for it. The last one is
transient. -/
def crowd : Workshop Nat :=
  let ended := (((opened 1).submit 0 { lockedJob "L" 10 with lock := none }).endBody 1
    (.ok .null)).handle 1 (.finished 1 (.ok .null)) []
  ((ended.submit 2 (lockedJob "L" 20)).submit 3 (lockedJob "L" 30)).submit 4
    { lockedJob "L" 40 with transient := true }

theorem crowd_reachable : Reachable 1 crowd := by
  have hnew : Runs (opened 1) (opened 1 : Workshop Nat) := .refl
  have hended := ((hnew.tail (Step.submit _ 0 { lockedJob "L" 10 with lock := none })).tail
    (Step.endBody _ 1 (.ok .null) (by decide))).tail
    (Step.handle _ 1 [] [] (.finished 1 (.ok .null)) rfl)
  have hcome := (hended.tail (Step.submit _ 2 (lockedJob "L" 20))).tail
    (Step.submit _ 3 (lockedJob "L" 30))
  exact hcome.tail (Step.submit _ 4 { lockedJob "L" 40 with transient := true })

theorem stopAll_shuts_down_crowd : (crowd.table.stopAll 9).2 = 3 ∧
    (crowd.table.stopAll 9).1.finished = [1, 3].rtake 1 ∧
    stopsOf (crowd.table.stopAll 9).1.effects = [2] ∧
    (crowd.table.stopAll 9).1.snapshots.map (·.id) = [2, 3] ∧
    4 ∉ (crowd.adopt (crowd.table.stopAll 9).1).started.map Prod.fst := by
  obtain ⟨hcount, hdown, hnever⟩ := stopAll_shuts_down crowd_reachable 9
  exact ⟨hcount, hdown.finished, hdown.asked, rfl, hnever (some "L") 4 ⟨_, rfl, rfl, rfl⟩⟩

end Workshop

end Switchboard
