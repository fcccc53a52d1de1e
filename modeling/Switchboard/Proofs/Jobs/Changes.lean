import Switchboard.Proofs.Jobs.Views

namespace Switchboard

namespace JobEntry

variable {β : Type}

def begun (now : Nat) (e : JobEntry β) : JobEntry β :=
  { e with
    body := none
    snapshot := { e.snapshot with state := .running, timeStarted := some now } }

def settled (now : Nat) (outcome : Except CallError Json) (e : JobEntry β) : JobEntry β :=
  let outcome := JobTable.settled e.cancelled outcome
  { e with
    snapshot := JobTable.endSnapshot now outcome
      { e.snapshot with state := JobTable.endState outcome } }

def dismissed (now : Nat) (state : JobState) (error : CallError) (e : JobEntry β) : JobEntry β :=
  { e with
    body := none
    snapshot := { e.snapshot with state, error := some error, timeFinished := some now } }

end JobEntry

namespace JobTable

variable {β : Type} {t t' t'' : JobTable β} {id now : Nat} {e e' e'' : JobEntry β}

/-- One table is another but for the entry of one job. -/
structure SameBut (t t' : JobTable β) (id : Nat) (e' : JobEntry β) : Prop where
  job? : ∀ j, t'.job? j = if j = id then some e' else t.job? j
  ids : t'.ids = t.ids
  locks : t'.locks = t.locks
  finished : t'.finished = t.finished
  nextId : t'.nextId = t.nextId
  maxRetained : t'.maxRetained = t.maxRetained

theorem SameBut.trans (h : SameBut t t' id e') (h' : SameBut t' t'' id e'') :
    SameBut t t'' id e'' where
  job? j := by
    rw [h'.job?, h.job?]
    by_cases hj : j = id <;> simp [hj]
  ids := h'.ids.trans h.ids
  locks := h'.locks.trans h.locks
  finished := h'.finished.trans h.finished
  nextId := h'.nextId.trans h.nextId
  maxRetained := h'.maxRetained.trans h.maxRetained

theorem SameBut.wants (h : SameBut t t' id e') (effects : List (JobEffect β)) :
    SameBut t (t'.wants effects) id e' := by
  refine ⟨?_, ?_, ?_, ?_, ?_, ?_⟩
  all_goals simp [h.job?, h.ids, h.locks, h.finished, h.nextId, h.maxRetained]

theorem SameBut.queue? (h : SameBut t t' id e') (lock : String) :
    t'.queue? lock = t.queue? lock := by
  simp [JobTable.queue?, h.locks]

theorem sameBut_update {f : JobEntry β → JobEntry β} (h : t.job? id = some e)
    (hf : ∀ e, e.id = id → (f e).id = id) : SameBut t (t.update id f) id (f e) where
  job? j := by
    let g (e : JobEntry β) : JobEntry β := if e.id = id then f e else e
    have hg : ∀ e, (g e).id = e.id := by
      intro e
      by_cases he : e.id = id
      · simp [g, he, hf e he]
      · simp [g, he]
    have hcomp : ((fun e : JobEntry β => e.id == j) ∘ g) = fun e => e.id == j := by
      funext e
      simp [hg]
    have hfind : (t.update id f).job? j = (t.job? j).map g := by
      unfold update JobTable.job?
      rw [List.find?_map, hcomp]
    rw [hfind]
    by_cases hj : j = id
    · subst hj
      simp [h, g, job?_id h]
    · cases hjob : t.job? j with
      | none => simp [hj]
      | some x => simp [hj, g, job?_id hjob]
  ids := by
    simp only [update, JobTable.ids, List.map_map]
    apply List.map_congr_left
    intro e _
    by_cases he : e.id = id
    · simp [he, hf e he]
    · simp [he]
  locks := rfl
  finished := rfl
  nextId := rfl
  maxRetained := rfl

theorem starts_update (f : JobEntry β → JobEntry β) : (t.update id f).starts = t.starts := rfl

def takeBody (t : JobTable β) (id : Nat) : JobTable β :=
  (t.update id fun e => { e with body := none }).want (.disarmTimer id)

theorem sameBut_takeBody (h : t.job? id = some e) :
    SameBut t (t.takeBody id) id { e with body := none } :=
  (sameBut_update (f := fun e => { e with body := none }) h fun _ he => he).wants _

theorem starts_takeBody (t : JobTable β) (id : Nat) : (t.takeBody id).starts = t.starts := by
  rw [takeBody, want_eq, starts_wants, starts_update]
  simp [List.filterMap_cons, JobEffect.started?]

theorem sameBut_change {s : JobSnapshot} (h : t.job? id = some e) (hs : s.id = id) :
    SameBut t (t.change id s) id { e with snapshot := s } := by
  rw [change, publish_eq, want_eq]
  have hu := sameBut_update (f := fun e => { e with snapshot := s }) h (fun _ _ => hs)
  exact (hu.wants _).wants _

theorem starts_change (t : JobTable β) (id : Nat) (s : JobSnapshot) :
    (t.change id s).starts = t.starts := by
  rw [change, publish_eq, want_eq]
  simp [filterMap_started?_news, JobEffect.started?, starts_update]

theorem transition_spec (next : JobState) (edit : JobSnapshot → JobSnapshot)
    (h : t.job? id = some e) (hnext : e.state.canBecome next) (hedit : ∀ s, (edit s).id = s.id) :
    SameBut t (t.transition id next edit).1 id
        { e with snapshot := edit { e.snapshot with state := next } } ∧
      (t.transition id next edit).2 = true ∧ (t.transition id next edit).1.starts = t.starts := by
  have hs : e.snapshot.state.canBecome next = true := hnext
  simp only [transition, snapshot?_eq h, hs, if_true, starts_change, and_true]
  exact sameBut_change h ((hedit _).trans (job?_id h))

theorem sameBut_progress (percent : Nat) (description : Option String) (h : t.job? id = some e) :
    t.progress id percent description = t ∨ e.state = .running ∧
      SameBut t (t.progress id percent description) id
        { e with snapshot := { e.snapshot with
          progress := e.snapshot.progress.report percent description } } := by
  simp only [progress, snapshot?_eq h]
  split
  next hp => exact .inr ⟨hp.1, sameBut_change h (job?_id h)⟩
  next => exact .inl rfl

theorem starts_progress (t : JobTable β) (id percent : Nat) (description : Option String) :
    (t.progress id percent description).starts = t.starts := by
  cases hs : t.snapshot? id with
  | none => simp [progress, hs]
  | some s =>
    simp only [progress, hs]
    split
    next => exact starts_change _ _ _
    next => rfl

theorem start_eq {body : β} (now : Nat) (h : t.job? id = some e) (hb : e.body = some body)
    (hs : e.state = .waiting) : t.start now id =
      ((((t.takeBody id).transition id .running fun s => { s with timeStarted := some now }).1).log
        .info s!"Job {id} ({e.snapshot.method}) started").want
          (.start id (e.snapshot.abortable && !e.blocking) body) := by
  have hjob : (t.takeBody id).job? id = some { e with body := none } := by
    rw [(sameBut_takeBody h).job?, if_pos rfl]
  have hcan : JobState.canBecome e.state .running = true := by rw [hs]; rfl
  obtain ⟨-, hok, -⟩ := transition_spec .running (fun s => { s with timeStarted := some now }) hjob
    hcan fun _ => rfl
  rw [takeBody] at hok
  simp only [start, h, hb, hok, if_true, takeBody]

theorem start_spec {body : β} (now : Nat) (h : t.job? id = some e) (hb : e.body = some body)
    (hs : e.state = .waiting) :
    SameBut t (t.start now id) id (e.begun now) ∧
      (t.start now id).starts = t.starts ++ [(id, body)] := by
  have htaken := sameBut_takeBody h
  have hjob : (t.takeBody id).job? id = some { e with body := none } := by
    rw [htaken.job?, if_pos rfl]
  have hcan : JobState.canBecome e.state .running = true := by rw [hs]; rfl
  obtain ⟨hrun, -, hstarts⟩ := transition_spec .running
    (fun s => { s with timeStarted := some now }) hjob hcan fun _ => rfl
  rw [start_eq now h hb hs]
  refine ⟨((htaken.trans hrun).wants _).wants _, ?_⟩
  rw [want_eq, log_eq, starts_wants, starts_wants, hstarts, starts_takeBody]
  simp [List.filterMap_cons, JobEffect.started?]

section Release

variable {lock : String} {q : LockQueue} {next : Nat} {rest : List Nat}

theorem release_unlocked (h : t.job? id = some e) (hl : e.snapshot.lock = none) :
    t.release now id = t := by
  simp [release, snapshot?_eq h, hl]

theorem release_waiter {holder : Nat} (h : t.job? id = some e) (hl : e.snapshot.lock = some lock)
    (hq : t.queue? lock = some q) (hr : q.running = some holder) (hne : holder ≠ id) :
    t.release now id =
      t.setQueue lock { q with waiting := q.waiting.filter fun w => w != id } := by
  simp [release, snapshot?_eq h, hl, hq, hr, hne]

theorem release_last (h : t.job? id = some e) (hl : e.snapshot.lock = some lock)
    (hq : t.queue? lock = some ⟨some id, []⟩) : t.release now id = t.dropQueue lock := by
  simp [release, snapshot?_eq h, hl, hq]

/-- A lock that is handed on goes to the job that has waited longest, which is started. -/
theorem release_heir (now : Nat) (h : t.job? id = some e) (hl : e.snapshot.lock = some lock)
    (hq : t.queue? lock = some ⟨some id, next :: rest⟩) :
    t.release now id = ((t.setQueue lock ⟨some next, rest⟩).wants
      [.log ⟨.debug, s!"Lock {lock} passed from job {id} to job {next}"⟩]).start now next := by
  simp only [release, snapshot?_eq h, hl, hq, Option.bind_some, if_true, Option.isSome_none,
    Bool.false_eq_true, if_false, log_eq]

theorem release_next {body : β} (now : Nat) (h : t.job? id = some e)
    (hl : e.snapshot.lock = some lock) (hq : t.queue? lock = some ⟨some id, next :: rest⟩)
    (hn : t.job? next = some e') (hb : e'.body = some body) (hw : e'.state = .waiting) :
    SameBut (t.setQueue lock ⟨some next, rest⟩) (t.release now id) next (e'.begun now) ∧
      (t.release now id).starts = t.starts ++ [(next, body)] := by
  rw [release_heir now h hl hq]
  have hlogged : (t.setQueue lock ⟨some next, rest⟩).job? next = some e' := hn
  obtain ⟨hsame, hstarts⟩ := start_spec (t := (t.setQueue lock ⟨some next, rest⟩).wants
    [.log ⟨.debug, s!"Lock {lock} passed from job {id} to job {next}"⟩]) now hlogged hb hw
  refine ⟨⟨hsame.job?, hsame.ids, hsame.locks, hsame.finished, hsame.nextId,
    hsame.maxRetained⟩, hstarts.trans ?_⟩
  rw [starts_wants]
  simp [List.filterMap_cons, JobEffect.started?, starts, setQueue, dropQueue]

end Release

structure Forgets (t t' : JobTable β) (gone : List Nat) : Prop where
  job? : ∀ j, t'.job? j = if j ∈ gone then none else t.job? j
  ids : t'.ids = t.ids.filter fun j => j ∉ gone
  locks : t'.locks = t.locks
  nextId : t'.nextId = t.nextId
  maxRetained : t'.maxRetained = t.maxRetained
  starts : t'.starts = t.starts

theorem forgets_filter (t : JobTable β) (id : Nat) :
    Forgets t { t with jobs := t.jobs.filter fun e => e.id != id } [id] where
  job? j := by
    by_cases hj : j = id
    · subst hj
      simp [JobTable.job?]
    · simp only [JobTable.job?, List.find?_filter, List.mem_singleton, hj, if_false]
      congr 1
      funext e
      by_cases he : e.id = j <;> simp [he, hj]
  ids := by
    simp only [JobTable.ids, List.filter_map]
    congr 1
    apply List.filter_congr
    intro e _
    by_cases he : e.id = id <;> simp [he]
  locks := rfl
  nextId := rfl
  maxRetained := rfl
  starts := rfl

theorem Forgets.trans {gone gone' : List Nat} (h : Forgets t t' gone) (h' : Forgets t' t'' gone') :
    Forgets t t'' (gone ++ gone') where
  job? j := by
    rw [h'.job?, h.job?]
    by_cases hj : j ∈ gone <;> by_cases hj' : j ∈ gone' <;> simp [hj, hj']
  ids := by
    rw [h'.ids, h.ids, List.filter_filter]
    apply List.filter_congr
    intro j _
    simp [not_or, Bool.and_comm]
  locks := h'.locks.trans h.locks
  nextId := h'.nextId.trans h.nextId
  maxRetained := h'.maxRetained.trans h.maxRetained
  starts := h'.starts.trans h.starts

theorem evict_spec (t : JobTable β) (id : Nat) :
    Forgets t (t.evict id) [id] ∧ (t.evict id).finished = t.finished := by
  rw [evict, publish_eq, want_eq]
  have hf := forgets_filter (t.wants (t.news id .removed)) id
  refine ⟨⟨hf.job?, hf.ids, hf.locks, hf.nextId, hf.maxRetained, ?_⟩, rfl⟩
  rw [starts_wants, hf.starts]
  simp [filterMap_started?_news, List.filterMap_cons, JobEffect.started?]

theorem foldl_evict_spec (gone : List Nat) (t : JobTable β) :
    Forgets t (gone.foldl evict t) gone ∧ (gone.foldl evict t).finished = t.finished := by
  induction gone generalizing t with
  | nil => exact ⟨⟨by simp, by simp, rfl, rfl, rfl, rfl⟩, rfl⟩
  | cons id rest ih =>
    obtain ⟨hf, hfin⟩ := evict_spec t id
    obtain ⟨hf', hfin'⟩ := ih (t.evict id)
    exact ⟨hf.trans hf', hfin'.trans hfin⟩

/-- How many of the finished jobs are too many once another one is counted among them. -/
def excess (t : JobTable β) : Nat := t.finished.length + 1 - t.maxRetained

theorem retire_transient (h : t.job? id = some e) (ht : e.snapshot.transient = true) :
    Forgets t (t.retire id) [id] ∧ (t.retire id).finished = t.finished := by
  simp only [retire, snapshot?_eq h, Option.any_some, ht, if_true, want_eq]
  have hf := forgets_filter t id
  refine ⟨⟨hf.job?, hf.ids, hf.locks, hf.nextId, hf.maxRetained, ?_⟩, rfl⟩
  rw [starts_wants, hf.starts]
  simp [List.filterMap_cons, JobEffect.started?]

theorem retire_remembered (h : t.job? id = some e) (ht : e.snapshot.transient = false) :
    Forgets t (t.retire id) ((t.finished ++ [id]).take t.excess) ∧
      (t.retire id).finished = (t.finished ++ [id]).drop t.excess := by
  have hx : (t.finished ++ [id]).length - t.maxRetained = t.excess := by simp [excess]
  simp only [retire, snapshot?_eq h, Option.any_some, ht, Bool.false_eq_true, if_false, hx]
  obtain ⟨hf, hfin⟩ := foldl_evict_spec ((t.finished ++ [id]).take t.excess)
    { t with finished := (t.finished ++ [id]).drop t.excess }
  exact ⟨⟨hf.job?, hf.ids, hf.locks, hf.nextId, hf.maxRetained, hf.starts⟩, hfin⟩

theorem finishUnstarted_spec {state : JobState} (now : Nat) (error : CallError)
    (h : t.job? id = some e) (hstate : e.state.canBecome state) :
    ∃ t', SameBut t t' id (e.dismissed now state error) ∧ t'.starts = t.starts ∧
      t.finishUnstarted now id state error = t'.retire id := by
  have htaken := sameBut_takeBody h
  obtain ⟨hend, -, hstarts⟩ := transition_spec (e := { e with body := none }) state
    (fun s => { s with error := some error, timeFinished := some now })
    (by rw [htaken.job?, if_pos rfl]) hstate fun _ => rfl
  exact ⟨_, htaken.trans hend, hstarts.trans (starts_takeBody t id), rfl⟩

theorem endState_isTerminal (outcome : Except CallError Json) :
    (endState outcome).isTerminal = true := by
  unfold endState
  split <;> rfl

theorem canBecome_of_running {state : JobState} (h : state.isTerminal = true) :
    JobState.canBecome .running state = true := by
  cases state <;> first | rfl | cases h

theorem endSnapshot_id (now : Nat) (outcome : Except CallError Json) (s : JobSnapshot) :
    (endSnapshot now outcome s).id = s.id := by
  cases outcome <;> rfl

/-- The table once the end of a body is noted, before its lock is handed on. -/
def noteEnd (t : JobTable β) (now id : Nat) (outcome : Except CallError Json) (e : JobEntry β) :
    JobTable β :=
  let ended := settled e.cancelled outcome
  ((t.want (.log (endRecord id ended))).transition id (endState ended) (endSnapshot now ended)).1

theorem finish_eq (now : Nat) (outcome : Except CallError Json) (h : t.job? id = some e) :
    t.finish now id outcome = ((t.noteEnd now id outcome e).release now id).retire id := by
  simp only [finish, h, noteEnd]

theorem noteEnd_spec (now : Nat) (outcome : Except CallError Json) (h : t.job? id = some e)
    (hrun : e.state = .running) :
    SameBut t (t.noteEnd now id outcome e) id (e.settled now outcome) ∧
      (t.noteEnd now id outcome e).starts = t.starts := by
  let ended := settled e.cancelled outcome
  have hlogged : SameBut t (t.want (.log (endRecord id ended))) id e := by
    refine ⟨fun j => ?_, rfl, rfl, rfl, rfl, rfl⟩
    by_cases hj : j = id
    · subst hj
      simpa [want_eq] using h
    · simp [want_eq, hj]
  have hcan : e.state.canBecome (endState ended) = true := by
    rw [hrun]
    exact canBecome_of_running (endState_isTerminal ended)
  obtain ⟨hend, -, hstarts⟩ := transition_spec _ (endSnapshot now ended)
    (by rw [hlogged.job?, if_pos rfl]) hcan (endSnapshot_id now ended)
  refine ⟨hlogged.trans hend, hstarts.trans ?_⟩
  rw [want_eq, starts_wants]
  simp [List.filterMap_cons, JobEffect.started?]

def fresh (now id : Nat) (job : NewJob β) : JobEntry β where
  snapshot := {
    id, method := job.method, arguments := job.arguments, lock := job.lock
    description := job.description, abortable := job.abortable, transient := job.transient
    timeCreated := now }
  blocking := job.blocking
  body := some job.body

theorem enter_spec (now : Nat) (job : NewJob β) (hnew : t.nextId ∉ t.ids) :
    (∀ j, (t.enter now job).job? j =
        if j = t.nextId then some (fresh now t.nextId job) else t.job? j) ∧
      (t.enter now job).ids = t.ids ++ [t.nextId] ∧ (t.enter now job).locks = t.locks ∧
      (t.enter now job).finished = t.finished ∧ (t.enter now job).nextId = t.nextId + 1 ∧
      (t.enter now job).maxRetained = t.maxRetained ∧ (t.enter now job).starts = t.starts := by
  have hid : (fresh now t.nextId job).id = t.nextId := rfl
  simp only [enter, publish_eq, want_eq, log_eq]
  refine ⟨fun j => ?_, ?_, rfl, rfl, rfl, rfl, ?_⟩
  · have hfind : ((t.jobs ++ [fresh now t.nextId job]).find? fun e => e.id == j) =
        (t.job? j).or ([fresh now t.nextId job].find? fun e => e.id == j) := List.find?_append
    refine hfind.trans ?_
    by_cases hj : j = t.nextId
    · subst hj
      simp [job?_eq_none_iff.mpr hnew, hid]
    · simp only [hj, if_false, List.find?_singleton, hid, beq_iff_eq, Ne.symm hj, Option.or_none]
  · simp only [ids_wants]
    simp [ids, wants, JobEntry.id]
  · simp only [starts_wants, filterMap_started?_news, List.append_nil]
    simp [starts, wants, List.filterMap_cons, JobEffect.started?]

theorem queueUp_free {lock : String} {timeout : Option Nat} (hq : t.queue? lock = none) :
    t.queueUp now id lock timeout = (t.setQueue lock ⟨some id, []⟩).start now id := by
  simp [queueUp, hq]

theorem queueUp_held {lock : String} {holder : Nat} {waiting : List Nat} (now id : Nat)
    (timeout : Option Nat) (hq : t.queue? lock = some ⟨some holder, waiting⟩) :
    t.queueUp now id lock timeout = (t.setQueue lock ⟨some holder, waiting ++ [id]⟩).wants
      (.log ⟨.debug, s!"Job {id} is waiting for lock {lock}"⟩ ::
        timeout.toList.map (.armTimer id)) := by
  cases timeout <;> simp [queueUp, hq, log_eq, want, wants]

end JobTable

end Switchboard
