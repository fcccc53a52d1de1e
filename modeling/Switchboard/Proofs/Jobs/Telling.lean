import Switchboard.Proofs.Jobs.Roll

namespace Switchboard

def LockQueue.without (q : LockQueue) (id : Nat) : LockQueue :=
  if q.running = some id then { q with running := none }
  else { q with waiting := q.waiting.filter fun w => w != id }

theorem LockQueue.mem_without {q : LockQueue} {id j : Nat}
    (h : j ∈ (q.without id).running.toList ++ (q.without id).waiting) :
    j ∈ q.running.toList ++ q.waiting := by
  unfold LockQueue.without at h
  split at h
  next => exact List.mem_append_right _ (by simpa using h)
  next =>
    rcases List.mem_append.mp h with h | h
    · exact List.mem_append_left _ h
    · exact List.mem_append_right _ (List.mem_filter.mp h).1

namespace JobTable

variable {β : Type} {t t' t'' : JobTable β} {id now : Nat} {stops stops' : List Nat}

def roll (t : JobTable β) : JobRoll := ⟨t.nextId, t.snapshot?⟩

/-- Every number in the table was given by it. -/
structure Numbered (t : JobTable β) : Prop where
  jobs : ∀ id ∈ t.ids, id < t.nextId
  finished : ∀ id ∈ t.finished, id < t.nextId
  queued : ∀ q ∈ t.locks, ∀ id ∈ q.2.running.toList ++ q.2.waiting, id < t.nextId

/-- What is new among the effects recounts how the table has changed, and asks these bodies to
stop. -/
structure Tells (t t' : JobTable β) (stops : List Nat) : Prop where
  numbered : t'.Numbered
  recounts : ∃ effects, t'.effects = t.effects ++ effects ∧ stopsOf effects = stops ∧
    Recounts t.roll effects t'.roll

theorem Tells.trans (h : Tells t t' stops) (h' : Tells t' t'' stops') :
    Tells t t'' (stops ++ stops') := by
  obtain ⟨effects, heffects, hstops, hrecounts⟩ := h.recounts
  obtain ⟨more, hmore, hstops', hrecounts'⟩ := h'.recounts
  refine ⟨h'.numbered, effects ++ more, ?_, ?_, hrecounts.append hrecounts'⟩
  · rw [hmore, heffects, List.append_assoc]
  · rw [stopsOf_append, hstops, hstops']

theorem Tells.nextId_le (h : Tells t t' stops) : t.nextId ≤ t'.nextId := by
  obtain ⟨_, -, -, hrecounts⟩ := h.recounts
  exact hrecounts.narrates.next_le

theorem mem_ids_of_snapshot? {s : JobSnapshot} (h : t.snapshot? id = some s) :
    id ∈ t.ids ∧ s.id = id := by
  obtain ⟨e, he, rfl⟩ := Option.map_eq_some_iff.mp h
  have hid : e.id = id := job?_id he
  exact ⟨hid ▸ List.mem_map_of_mem (List.mem_of_find?_eq_some he), hid⟩

theorem Numbered.bounded (h : t.Numbered) : t.roll.Bounded := fun id _ hs =>
  ⟨(mem_ids_of_snapshot? hs).2, h.jobs id (mem_ids_of_snapshot? hs).1⟩

theorem Numbered.lt_of_job? (h : t.Numbered) {e : JobEntry β} (he : t.job? id = some e) :
    id < t.nextId := h.jobs id (mem_ids_of_snapshot? (snapshot?_eq he)).1

theorem Numbered.tells_refl (h : t.Numbered) : Tells t t [] :=
  ⟨h, [], (List.append_nil _).symm, rfl, .nothing _⟩

theorem Numbered.tells_aside (h : t.Numbered) {e : JobEffect β} (he : e.IsAside) :
    Tells t (t.want e) (stopsOf [e]) :=
  ⟨⟨h.jobs, h.finished, h.queued⟩, [e], rfl, rfl, (Recounts.nothing t.roll).aside e he⟩

theorem Numbered.tells_log (h : t.Numbered) (level : LogLevel) (text : String) :
    Tells t (t.log level text) [] := h.tells_aside trivial

theorem ids_update {f : JobEntry β → JobEntry β} (t : JobTable β) (id : Nat)
    (hf : ∀ e, (f e).id = e.id) : (t.update id f).ids = t.ids := by
  simp only [ids, update, List.map_map]
  refine List.map_congr_left fun e _ => ?_
  by_cases he : e.id = id
  · simp [he, hf e]
  · simp [he]

theorem Numbered.tells_update {f : JobEntry β → JobEntry β} (h : t.Numbered) (id : Nat)
    (hf : ∀ e, (f e).snapshot = e.snapshot) : Tells t (t.update id f) [] := by
  have hid : ∀ e, (f e).id = e.id := fun e => congrArg JobSnapshot.id (hf e)
  have hsame : ∀ e, (if e.id = id then f e else e).snapshot = e.snapshot := by
    intro e
    split
    next => exact hf e
    next => rfl
  have hsnapshot : ∀ j, (t.update id f).snapshot? j = t.snapshot? j := by
    intro j
    have hfind : ((fun e : JobEntry β => e.id == j) ∘ fun e => if e.id = id then f e else e) =
        fun e => e.id == j :=
      funext fun e => congrArg (· == j) (congrArg JobSnapshot.id (hsame e))
    unfold snapshot? job? update
    rw [List.find?_map, hfind, Option.map_map]
    exact congrArg (Option.map · _) (funext hsame)
  have hroll : (t.update id f).roll = t.roll := by
    rw [roll, funext hsnapshot]
    rfl
  refine ⟨⟨?_, h.finished, h.queued⟩, [], (List.append_nil _).symm, rfl, hroll ▸ .nothing _⟩
  rw [ids_update t id hid]
  exact h.jobs

theorem mem_of_queue? {lock : String} {q : LockQueue} (h : t.queue? lock = some q) :
    (lock, q) ∈ t.locks := by
  obtain ⟨before, after, heq, -⟩ := List.lookup_eq_some_iff.mp h
  rw [heq]
  exact List.mem_append_right _ List.mem_cons_self

theorem Numbered.tells_dropQueue (h : t.Numbered) (lock : String) :
    Tells t (t.dropQueue lock) [] :=
  ⟨⟨h.jobs, h.finished, fun q hq => h.queued q (List.mem_filter.mp hq).1⟩, [],
    (List.append_nil _).symm, rfl, .nothing _⟩

theorem Numbered.tells_unlock (h : t.Numbered) : Tells t { t with locks := [] } [] :=
  ⟨⟨h.jobs, h.finished, fun _ hq => by cases hq⟩, [], (List.append_nil _).symm, rfl, .nothing _⟩

theorem Numbered.tells_setQueue (h : t.Numbered) (lock : String) {q : LockQueue}
    (hq : ∀ id ∈ q.running.toList ++ q.waiting, id < t.nextId) :
    Tells t (t.setQueue lock q) [] := by
  refine ⟨⟨h.jobs, h.finished, fun q' hq' => ?_⟩, [], (List.append_nil _).symm, rfl, .nothing _⟩
  rcases List.mem_cons.mp hq' with rfl | hq'
  · exact hq
  · exact h.queued q' (List.mem_filter.mp hq').1

theorem news_eq_tidings {s : JobSnapshot} (hs : t.snapshot? id = some s) (type : EventType) :
    t.news id type = (s.tidings type).map .publish := by
  have hid := (mem_ids_of_snapshot? hs).2
  unfold news JobSnapshot.tidings JobSnapshot.event
  rw [hs, hid]
  cases ht : s.transient <;> simp [ht]

theorem effects_change {e : JobEntry β} {s : JobSnapshot} (he : t.job? id = some e)
    (hid : s.id = id) : (t.change id s).effects =
      t.effects ++ .reveal s :: (s.tidings .changed).map .publish := by
  have hsame := sameBut_update (f := fun e => { e with snapshot := s }) he fun _ _ => hid
  have hnow : ((t.update id fun e => { e with snapshot := s }).want (.reveal s)).snapshot? id =
      some s := snapshot?_eq ((hsame.job? id).trans (if_pos rfl))
  rw [change, publish_eq, news_eq_tidings hnow]
  simp [wants, want, update]

theorem Numbered.tells_change {s s' : JobSnapshot} (h : t.Numbered)
    (hs : t.snapshot? id = some s) (hs' : s.Becomes s') : Tells t (t.change id s') [] := by
  obtain ⟨e, he, rfl⟩ := Option.map_eq_some_iff.mp hs
  have hid : s'.id = id := hs'.id.trans (job?_id he)
  have hsame := sameBut_change he hid
  have hroll : (t.change id s').roll = t.roll.write s' := by
    unfold roll JobRoll.write
    congr 1
    · exact hsame.nextId
    · funext j
      rw [snapshot?, hsame.job?, hid]
      split <;> rfl
  refine ⟨⟨?_, ?_, ?_⟩, _, effects_change he hid, by simp, ?_⟩
  · rw [hsame.ids, hsame.nextId]
    exact h.jobs
  · rw [hsame.finished, hsame.nextId]
    exact h.finished
  · rw [hsame.locks, hsame.nextId]
    exact h.queued
  · have hold : t.roll.job e.snapshot.id = some e.snapshot := by
      rw [show e.snapshot.id = id from job?_id he]
      exact hs
    exact hroll ▸ (Recounts.nothing t.roll).changed e.snapshot s' hold hs'

/-- An edit of a snapshot that comes with a change of its state. -/
structure IsEdit (edit : JobSnapshot → JobSnapshot) : Prop where
  same : ∀ s : JobSnapshot, s.SameJob (edit s)
  state : ∀ s, (edit s).state = s.state

theorem isEdit_endSnapshot (now : Nat) (outcome : Except CallError Json) :
    IsEdit (endSnapshot now outcome) := by
  cases outcome <;> exact ⟨fun _ => by constructor <;> rfl, fun _ => rfl⟩

theorem isEdit_begin (now : Nat) : IsEdit fun s => { s with timeStarted := some now } :=
  ⟨fun _ => by constructor <;> rfl, fun _ => rfl⟩

theorem isEdit_dismiss (now : Nat) (error : CallError) :
    IsEdit fun s => { s with error := some error, timeFinished := some now } :=
  ⟨fun _ => by constructor <;> rfl, fun _ => rfl⟩

theorem IsEdit.becomes {edit : JobSnapshot → JobSnapshot} (h : IsEdit edit) {s : JobSnapshot}
    {next : JobState} (hnext : s.state.canBecome next = true) :
    s.Becomes (edit { s with state := next }) := by
  obtain ⟨hid, hmethod, harguments, hlock, hdescription, habortable, htransient, hcreated⟩ :=
    h.same { s with state := next }
  exact ⟨⟨hid, hmethod, harguments, hlock, hdescription, habortable, htransient, hcreated⟩,
    .inl ((h.state _).symm ▸ hnext)⟩

theorem Numbered.tells_transition {edit : JobSnapshot → JobSnapshot} (h : t.Numbered) (id : Nat)
    (next : JobState) (hedit : IsEdit edit) : Tells t (t.transition id next edit).1 [] := by
  cases hs : t.snapshot? id with
  | none =>
    simp only [transition, hs]
    exact h.tells_refl
  | some s =>
    simp only [transition, hs]
    split
    next hnext => exact h.tells_change hs (hedit.becomes hnext)
    next => exact h.tells_log _ _

theorem Numbered.tells_takeBody (h : t.Numbered) (id : Nat) : Tells t (t.takeBody id) [] := by
  have htaken := h.tells_update (f := fun e => { e with body := none }) id fun _ => rfl
  exact htaken.trans (htaken.numbered.tells_aside (e := .disarmTimer id) trivial)

theorem Numbered.tells_start (h : t.Numbered) (now id : Nat) : Tells t (t.start now id) [] := by
  cases he : t.job? id with
  | none =>
    simp only [start, he]
    exact h.tells_refl
  | some e =>
    cases hb : e.body with
    | none =>
      simp only [start, he, hb]
      exact h.tells_log _ _
    | some body =>
      have htaken := h.tells_takeBody id
      have hrun := htaken.trans (htaken.numbered.tells_transition id .running (isEdit_begin now))
      simp only [start, he, hb]
      split
      next =>
        have hlogged := hrun.trans (hrun.numbered.tells_log .info
          s!"Job {id} ({e.snapshot.method}) started")
        exact hlogged.trans (hlogged.numbered.tells_aside
          (e := .start id (e.snapshot.abortable && !e.blocking) body) trivial)
      next => exact hrun

theorem release_eq (t : JobTable β) (now id : Nat) {lock : String} {q : LockQueue}
    (hlock : (t.snapshot? id).bind (·.lock) = some lock) (hq : t.queue? lock = some q) :
    t.release now id =
      if (q.without id).running.isSome then t.setQueue lock (q.without id)
      else
        match (q.without id).waiting with
        | [] => t.dropQueue lock
        | next :: waiting =>
          ((t.setQueue lock ⟨some next, waiting⟩).log .debug
            s!"Lock {lock} passed from job {id} to job {next}").start now next := by
  simp only [release, hlock, hq]
  rfl

theorem Numbered.tells_release (h : t.Numbered) (now id : Nat) :
    Tells t (t.release now id) [] := by
  cases hlock : (t.snapshot? id).bind (·.lock) with
  | none =>
    simp only [release, hlock]
    exact h.tells_refl
  | some lock =>
    cases hq : t.queue? lock with
    | none =>
      simp only [release, hlock, hq]
      exact h.tells_refl
    | some q =>
      have hleft : ∀ j ∈ (q.without id).running.toList ++ (q.without id).waiting, j < t.nextId :=
        fun j hj => h.queued _ (mem_of_queue? hq) j (LockQueue.mem_without hj)
      rw [release_eq t now id hlock hq]
      split
      next => exact h.tells_setQueue lock hleft
      next =>
        split
        next => exact h.tells_dropQueue lock
        next heir rest heq =>
          have hset := h.tells_setQueue lock (q := ⟨some heir, rest⟩) fun j hj => by
            rw [heq] at hleft
            exact hleft j (List.mem_append_right _ (by simpa using hj))
          have hlogged := hset.trans (hset.numbered.tells_log .debug
            s!"Lock {lock} passed from job {id} to job {heir}")
          exact hlogged.trans (hlogged.numbered.tells_start now heir)

theorem Numbered.forget (h : t.Numbered) (id : Nat) :
    ({ t with jobs := t.jobs.filter fun e => e.id != id } : JobTable β).Numbered where
  jobs j hj := by
    rw [(forgets_filter t id).ids] at hj
    exact h.jobs j (List.mem_filter.mp hj).1
  finished := h.finished
  queued := h.queued

theorem roll_forget (t : JobTable β) (id : Nat) :
    ({ t with jobs := t.jobs.filter fun e => e.id != id } : JobTable β).roll = t.roll.erase id := by
  unfold roll JobRoll.erase
  congr 1
  funext j
  rw [snapshot?, (forgets_filter t id).job?]
  simp only [List.mem_singleton]
  split <;> rfl

theorem erase_of_absent (hnone : t.snapshot? id = none) : t.roll.erase id = t.roll := by
  unfold roll JobRoll.erase
  congr 1
  funext j
  split
  next heq => rw [heq, hnone]
  next => rfl

theorem Numbered.tells_evict (h : t.Numbered) (hid : id < t.nextId) :
    Tells t (t.evict id) [] := by
  have heffects : (t.evict id).effects = t.effects ++ (t.news id .removed ++ [.conceal id]) := by
    simp [evict, publish_eq, wants, want]
  have hroll : (t.evict id).roll = t.roll.erase id := by
    rw [evict, publish_eq]
    exact roll_forget (t.wants _) id
  have hnumbered : (t.evict id).Numbered := by
    rw [evict, publish_eq]
    have hforgot := Numbered.forget (t := t.wants (t.news id .removed))
      ⟨h.jobs, h.finished, h.queued⟩ id
    exact ⟨hforgot.jobs, hforgot.finished, hforgot.queued⟩
  refine ⟨hnumbered, _, heffects, ?_, ?_⟩
  · cases hs : t.snapshot? id with
    | none => simp [news, hs]
    | some s => simp [news_eq_tidings hs, stopsOf_append]
  · cases hs : t.snapshot? id with
    | none =>
      rw [hroll, erase_of_absent hs]
      have hnews : t.news id .removed = [] := by simp [news, hs]
      rw [hnews]
      exact (Recounts.nothing t.roll).absent id hid hs
    | some s =>
      have hsid := (mem_ids_of_snapshot? hs).2
      rw [hroll, news_eq_tidings hs, ← hsid]
      exact (Recounts.nothing t.roll).removed s (hsid.symm ▸ hs)

theorem Numbered.tells_foldl (h : t.Numbered) (f : JobTable β → Nat → JobTable β)
    (g : Nat → List Nat) {ids : List Nat} (hids : ∀ id ∈ ids, id < t.nextId)
    (hf : ∀ (t : JobTable β) id, t.Numbered → id < t.nextId → Tells t (f t id) (g id)) :
    Tells t (ids.foldl f t) (ids.flatMap g) := by
  induction ids generalizing t with
  | nil => exact h.tells_refl
  | cons id rest ih =>
    have hfirst := hf t id h (hids id List.mem_cons_self)
    have hrest := ih hfirst.numbered fun j hj =>
      Nat.lt_of_lt_of_le (hids j (List.mem_cons_of_mem _ hj)) hfirst.nextId_le
    rw [List.foldl_cons, List.flatMap_cons]
    exact hfirst.trans hrest

theorem Numbered.tells_foldl_calm (h : t.Numbered) (f : JobTable β → Nat → JobTable β)
    {ids : List Nat} (hids : ∀ id ∈ ids, id < t.nextId)
    (hf : ∀ (t : JobTable β) id, t.Numbered → id < t.nextId → Tells t (f t id) []) :
    Tells t (ids.foldl f t) [] := by
  have hnone : (ids.flatMap fun _ => ([] : List Nat)) = [] :=
    List.flatMap_eq_nil_iff.mpr fun _ _ => rfl
  exact hnone ▸ h.tells_foldl f (fun _ => []) hids hf

theorem Numbered.tells_retire (h : t.Numbered) (hid : id < t.nextId) :
    Tells t (t.retire id) [] := by
  unfold retire
  split
  next ht =>
    obtain ⟨s, hs, htransient⟩ : ∃ s, t.snapshot? id = some s ∧ s.transient = true := by
      cases hs : t.snapshot? id with
      | none => simp [hs] at ht
      | some s => exact ⟨s, rfl, by simpa [hs] using ht⟩
    have hsid := (mem_ids_of_snapshot? hs).2
    refine ⟨⟨(h.forget id).jobs, h.finished, h.queued⟩, [.conceal id], rfl, by simp, ?_⟩
    have hremoved := (@Recounts.nothing β t.roll).removed s (hsid.symm ▸ hs)
    rw [hsid] at hremoved
    have hroll : (({ t with jobs := t.jobs.filter fun e => e.id != id } : JobTable β).want
        (.conceal id)).roll = t.roll.erase id := roll_forget t id
    rw [hroll]
    simpa [JobSnapshot.tidings, htransient] using hremoved
  next =>
    dsimp only
    generalize (t.finished ++ [id]).length - t.maxRetained = excess
    have hall : ∀ j ∈ t.finished ++ [id], j < t.nextId := by
      intro j hj
      rcases List.mem_append.mp hj with hj | hj
      · exact h.finished j hj
      · exact List.mem_singleton.mp hj ▸ hid
    have hcounted : Tells t { t with finished := (t.finished ++ [id]).drop excess } [] :=
      ⟨⟨h.jobs, fun j hj => hall j (List.mem_of_mem_drop hj), h.queued⟩, [],
        (List.append_nil _).symm, rfl, .nothing _⟩
    exact hcounted.trans (hcounted.numbered.tells_foldl_calm evict
      (fun j hj => hall j (List.mem_of_mem_take hj)) fun _ _ h hid => h.tells_evict hid)

theorem Numbered.tells_finishUnstarted (h : t.Numbered) (hid : id < t.nextId) (now : Nat)
    (state : JobState) (error : CallError) :
    Tells t (t.finishUnstarted now id state error) [] := by
  have htaken := h.tells_takeBody id
  have hboth := htaken.trans (htaken.numbered.tells_transition id state (isEdit_dismiss now error))
  exact hboth.trans (hboth.numbered.tells_retire (Nat.lt_of_lt_of_le hid hboth.nextId_le))

theorem Numbered.tells_enter (h : t.Numbered) (now : Nat) (job : NewJob β) :
    Tells t (t.enter now job) [] := by
  have hnew : t.nextId ∉ t.ids := fun hmem => Nat.lt_irrefl _ (h.jobs _ hmem)
  obtain ⟨hjob, hids, hlocks, hfinished, hnext, -, -⟩ := enter_spec now job hnew
  let s := (fresh now t.nextId job).snapshot
  have hnow : (t.enter now job).snapshot? t.nextId = some s := snapshot?_eq ((hjob _).trans
    (if_pos rfl))
  have hroll : (t.enter now job).roll = t.roll.enter s := by
    unfold roll JobRoll.enter JobRoll.write
    congr 1
    funext j
    rw [snapshot?, hjob]
    change _ = if j = t.nextId then _ else _
    split <;> rfl
  have heffects : (t.enter now job).effects = t.effects ++
      (.log ⟨.debug, s!"Job {t.nextId} ({job.method}) submitted"⟩ ::
        .reveal s :: (s.tidings .added).map .publish) := by
    rw [← news_eq_tidings hnow]
    simp only [enter, publish_eq, news, snapshot?_wants]
    simp [wants, want, log, s, fresh]
  refine ⟨⟨fun j hj => ?_, fun j hj => ?_, fun q hq j hj => ?_⟩, _, heffects,
    by simp [stopsOf, s, JobEffect.stop?], ?_⟩
  · rw [hids] at hj
    rw [hnext]
    rcases List.mem_append.mp hj with hj | hj
    · exact Nat.lt_succ_of_lt (h.jobs j hj)
    · exact List.mem_singleton.mp hj ▸ Nat.lt_succ_self _
  · rw [hfinished] at hj
    rw [hnext]
    exact Nat.lt_succ_of_lt (h.finished j hj)
  · rw [hlocks] at hq
    rw [hnext]
    exact Nat.lt_succ_of_lt (h.queued q hq j hj)
  · rw [hroll]
    have hlogged := (@Recounts.nothing β t.roll).aside
      (.log ⟨.debug, s!"Job {t.nextId} ({job.method}) submitted"⟩) trivial
    exact hlogged.entered s rfl rfl

theorem Numbered.of_queue? (h : t.Numbered) (lock : String) :
    ∀ id ∈ ((t.queue? lock).getD {}).running.toList ++ ((t.queue? lock).getD {}).waiting,
      id < t.nextId := by
  cases hq : t.queue? lock with
  | none => simp
  | some q => exact h.queued _ (mem_of_queue? hq)

theorem Numbered.tells_queueUp (h : t.Numbered) (hid : id < t.nextId) (now : Nat) (lock : String)
    (timeout : Option Nat) : Tells t (t.queueUp now id lock timeout) [] := by
  have hqueued := h.of_queue? lock
  unfold queueUp
  dsimp only
  generalize (t.queue? lock).getD {} = q at hqueued
  split
  next =>
    have hset := h.tells_setQueue lock (q := { q with running := some id }) fun j hj => by
      rcases List.mem_append.mp hj with hj | hj
      · cases List.mem_singleton.mp hj
        exact hid
      · exact hqueued j (List.mem_append_right _ hj)
    exact hset.trans (hset.numbered.tells_start now id)
  next =>
    have hset := h.tells_setQueue lock (q := { q with waiting := q.waiting ++ [id] })
      fun j hj => by
        rcases List.mem_append.mp hj with hj | hj
        · exact hqueued j (List.mem_append_left _ hj)
        · rcases List.mem_append.mp hj with hj | hj
          · exact hqueued j (List.mem_append_right _ hj)
          · cases List.mem_singleton.mp hj
            exact hid
    have hlogged := hset.trans (hset.numbered.tells_log .debug
      s!"Job {id} is waiting for lock {lock}")
    cases timeout with
    | none => exact hlogged
    | some ms => exact hlogged.trans (hlogged.numbered.tells_aside (e := .armTimer id ms) trivial)

theorem Numbered.tells_submit (h : t.Numbered) (now : Nat) (job : NewJob β) :
    Tells t (t.submit now job).1 [] := by
  unfold submit
  split
  next => exact h.tells_log _ _
  next =>
    have hentered := h.tells_enter now job
    have hid : t.nextId < (t.enter now job).nextId := by
      have hnew : t.nextId ∉ t.ids := fun hmem => Nat.lt_irrefl _ (h.jobs _ hmem)
      obtain ⟨-, -, -, -, hnext, -, -⟩ := enter_spec now job hnew
      omega
    dsimp only
    split
    next => exact hentered.trans (hentered.numbered.tells_queueUp hid now _ _)
    next => exact hentered.trans (hentered.numbered.tells_start now _)

theorem queue?_of_standIn? {job : NewJob β} {lock : String} (h : t.standIn? job = some (lock, id)) :
    ∃ q, t.queue? lock = some q ∧ q.waiting.getLast?.or q.running = some id := by
  unfold standIn? at h
  split at h
  next =>
    split at h
    next q hq =>
      split at h
      next =>
        obtain ⟨j, hj, heq⟩ := Option.map_eq_some_iff.mp h
        cases heq
        exact ⟨q, hq, hj⟩
      next => cases h
    next => cases h
  next => cases h

theorem Numbered.submit_lt (h : t.Numbered) (now : Nat) (job : NewJob β) :
    (t.submit now job).2 < (t.submit now job).1.nextId := by
  cases hstand : t.standIn? job with
  | none =>
    have hnew : t.nextId ∉ t.ids := fun hmem => Nat.lt_irrefl _ (h.jobs _ hmem)
    obtain ⟨-, -, -, -, hnext, -, -⟩ := enter_spec now job hnew
    have hentered := h.tells_enter now job
    have hid : t.nextId < (t.enter now job).nextId := by omega
    simp only [submit, hstand]
    split
    next => exact Nat.lt_of_lt_of_le hid (hentered.numbered.tells_queueUp hid now _ _).nextId_le
    next => exact Nat.lt_of_lt_of_le hid (hentered.numbered.tells_start now _).nextId_le
  | some found =>
    obtain ⟨lock, id⟩ := found
    simp only [submit, hstand]
    obtain ⟨q, hq, hid⟩ := queue?_of_standIn? hstand
    refine h.queued _ (mem_of_queue? hq) id ?_
    rcases Option.or_eq_some_iff.mp hid with hlast | ⟨-, hrunning⟩
    · exact List.mem_append_right _ (List.mem_of_getLast? hlast)
    · exact List.mem_append_left _ (by simp [hrunning])

theorem queueUp_keeps {e : JobEntry β} {body : β} (he : t.job? id = some e)
    (hb : e.body = some body) (hw : e.state = .waiting) (now : Nat) (lock : String)
    (timeout : Option Nat) : ∃ e', (t.queueUp now id lock timeout).job? id = some e' ∧
      e.snapshot.SameJob e'.snapshot := by
  unfold queueUp
  dsimp only
  split
  next =>
    have hset : (t.setQueue lock { (t.queue? lock).getD {} with running := some id }).job? id =
        some e := he
    exact ⟨_, ((start_spec now hset hb hw).1.job? id).trans (if_pos rfl), by constructor <;> rfl⟩
  next =>
    cases timeout with
    | none => exact ⟨e, he, by constructor <;> rfl⟩
    | some ms => exact ⟨e, he, by constructor <;> rfl⟩

theorem Numbered.submit_keeps (h : t.Numbered) (now : Nat) {job : NewJob β}
    (hnone : t.standIn? job = none) :
    ∃ s, (t.submit now job).1.snapshot? t.nextId = some s ∧
      (fresh now t.nextId job).snapshot.SameJob s := by
  have hnew : t.nextId ∉ t.ids := fun hmem => Nat.lt_irrefl _ (h.jobs _ hmem)
  have hentered : (t.enter now job).job? t.nextId = some (fresh now t.nextId job) :=
    ((enter_spec now job hnew).1 _).trans (if_pos rfl)
  simp only [submit, hnone]
  cases hl : job.lock with
  | none =>
    have hstarted := ((start_spec now hentered rfl rfl).1.job? t.nextId).trans (if_pos rfl)
    exact ⟨_, snapshot?_eq hstarted, by constructor <;> rfl⟩
  | some lock =>
    obtain ⟨e, he, ht⟩ := queueUp_keeps hentered rfl rfl now lock job.lockTimeout
    exact ⟨e.snapshot, snapshot?_eq he, ht⟩

theorem Numbered.tells_ask (h : t.Numbered) (id : Nat) :
    Tells t ((t.update id fun e => { e with cancelled := true }).want (.cancel id)) [id] := by
  have hmarked := h.tells_update (f := fun e => { e with cancelled := true }) id fun _ => rfl
  exact hmarked.trans (hmarked.numbered.tells_aside (e := .cancel id) trivial)

theorem Numbered.tells_asks (h : t.Numbered) {ids : List Nat} (hids : ∀ id ∈ ids, id < t.nextId) :
    Tells t (ids.foldl (fun t id =>
      (t.update id fun e => { e with cancelled := true }).want (.cancel id)) t) ids := by
  have htold := h.tells_foldl (fun t id =>
    (t.update id fun e => { e with cancelled := true }).want (.cancel id)) (fun id => [id]) hids
    fun _ id h _ => h.tells_ask id
  rwa [List.flatMap_singleton'] at htold

def stopsOfAbort (t : JobTable β) (id : Nat) : List Nat :=
  match t.job? id with
  | none => []
  | some e => if e.state = .running ∧ e.snapshot.abortable then [id] else []

theorem eq_of_mem_stopsOfAbort {j : Nat} (h : j ∈ t.stopsOfAbort id) : j = id := by
  unfold stopsOfAbort at h
  split at h
  next => simp at h
  next =>
    split at h
    next => exact List.mem_singleton.mp h
    next => simp at h

theorem Numbered.tells_abort (h : t.Numbered) (now id : Nat) :
    Tells t (t.abort now id).1 (t.stopsOfAbort id) := by
  cases he : t.job? id with
  | none =>
    simp only [abort, stopsOfAbort, he]
    exact h.tells_refl
  | some e =>
    cases hstate : e.state with
    | waiting =>
      simp only [abort, stopsOfAbort, he, hstate]
      have hreleased := h.tells_release now id
      have hended := hreleased.trans (hreleased.numbered.tells_finishUnstarted
        (Nat.lt_of_lt_of_le (h.lt_of_job? he) hreleased.nextId_le) now .aborted .aborted)
      simpa using hended.trans (hended.numbered.tells_log .info
        s!"Job {id} aborted before it started")
    | running =>
      cases ha : e.snapshot.abortable with
      | false =>
        simp only [abort, stopsOfAbort, he, hstate, ha]
        exact h.tells_refl
      | true =>
        simp only [abort, stopsOfAbort, he, hstate, ha, if_true, and_self]
        have hasked := h.tells_ask id
        exact hasked.trans (hasked.numbered.tells_log .info s!"Abort requested for job {id}")
    | success | failed | aborted =>
      simp only [abort, stopsOfAbort, he, hstate]
      exact h.tells_refl

def runningIds (t : JobTable β) : List Nat :=
  (t.jobs.filter fun e => e.state = .running).map JobEntry.id

theorem Numbered.tells_stopAll (h : t.Numbered) (now : Nat) :
    Tells t (t.stopAll now).1 t.runningIds := by
  have hall : ∀ (p : JobEntry β → Bool), ∀ id ∈ (t.jobs.filter p).map JobEntry.id,
      id < t.nextId := by
    intro p id hid
    obtain ⟨e, he, rfl⟩ := List.mem_map.mp hid
    exact h.jobs _ (List.mem_map_of_mem (List.mem_filter.mp he).1)
  have hasked := h.tells_asks (hall fun e => e.state = .running)
  have hended := hasked.trans (hasked.numbered.tells_foldl_calm
    (fun t id => t.finishUnstarted now id .aborted .aborted)
    (fun j hj => Nat.lt_of_lt_of_le (hall (fun e => e.state = .waiting) j hj) hasked.nextId_le)
    fun _ _ h hid => h.tells_finishUnstarted hid now _ _)
  have hstopped := hended.trans hended.numbered.tells_unlock
  rw [List.append_nil, List.append_nil] at hstopped
  exact hstopped

theorem Numbered.tells_progress (h : t.Numbered) (id percent : Nat)
    (description : Option String) : Tells t (t.progress id percent description) [] := by
  cases hs : t.snapshot? id with
  | none =>
    simp only [progress, hs]
    exact h.tells_refl
  | some s =>
    simp only [progress, hs]
    split
    next hrun => exact h.tells_change hs ⟨by constructor <;> rfl, .inr ⟨hrun.1, rfl⟩⟩
    next => exact h.tells_refl

theorem Numbered.tells_finish (h : t.Numbered) (now id : Nat) (outcome : Except CallError Json) :
    Tells t (t.finish now id outcome) [] := by
  cases he : t.job? id with
  | none =>
    simp only [finish, he]
    exact h.tells_refl
  | some e =>
    rw [finish_eq now outcome he, noteEnd]
    have hlogged := h.tells_aside
      (e := .log (endRecord id (settled e.cancelled outcome))) trivial
    have hnoted := hlogged.trans (hlogged.numbered.tells_transition id
      (endState (settled e.cancelled outcome))
      (isEdit_endSnapshot now (settled e.cancelled outcome)))
    have hfreed := hnoted.trans (hnoted.numbered.tells_release now id)
    exact hfreed.trans (hfreed.numbered.tells_retire
      (Nat.lt_of_lt_of_le (h.lt_of_job? he) hfreed.nextId_le))

theorem Numbered.tells_lockTimedOut (h : t.Numbered) (now id : Nat) :
    Tells t (t.lockTimedOut now id) [] := by
  cases he : t.job? id with
  | none =>
    simp only [lockTimedOut, he]
    exact h.tells_refl
  | some e =>
    simp only [lockTimedOut, he]
    split
    next =>
      generalize e.snapshot.lock.getD "" = lock
      have hlogged := h.tells_log .warn s!"Job {id} timed out waiting for lock {lock}"
      have hfreed := hlogged.trans (hlogged.numbered.tells_release now id)
      exact hfreed.trans (hfreed.numbered.tells_finishUnstarted
        (Nat.lt_of_lt_of_le (h.lt_of_job? he) hfreed.nextId_le) now _ _)
    next => exact h.tells_refl

theorem Numbered.tells_report (h : t.Numbered) (now : Nat) (r : JobReport) :
    Tells t (t.report now r) [] := by
  cases r with
  | progressed id percent description => exact h.tells_progress id percent description
  | finished id outcome => exact h.tells_finish now id outcome
  | lockTimedOut id => exact h.tells_lockTimedOut now id

end JobTable

end Switchboard
