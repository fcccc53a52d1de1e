import Switchboard.Proofs.Jobs.Telling

namespace Switchboard

def JobEntry.unstarted? {β : Type} (e : JobEntry β) : Option (Nat × β) := e.body.map (e.id, ·)

namespace JobTable

variable {β : Type} {t t' t'' : JobTable β} {id now : Nat}

/-- The bodies that the table still has and those that it wants run. -/
def bodies (t : JobTable β) : List (Nat × β) := t.jobs.filterMap JobEntry.unstarted? ++ t.starts

theorem mem_bodies_of_job? {e : JobEntry β} {body : β} (h : t.job? id = some e)
    (hb : e.body = some body) : (id, body) ∈ t.bodies := by
  have hmem : e ∈ t.jobs := List.mem_of_find?_eq_some h
  have hhas : e.unstarted? = some (id, body) := by
    rw [JobEntry.unstarted?, hb, job?_id h]
    rfl
  exact List.mem_append_left _ (List.mem_filterMap.mpr ⟨e, hmem, hhas⟩)

theorem bodies_wants (t : JobTable β) (effects : List (JobEffect β)) :
    (t.wants effects).bodies = t.bodies ++ effects.filterMap JobEffect.started? := by
  rw [bodies, starts_wants, ← List.append_assoc]
  rfl

/-- All bodies of a table come from one before it. -/
def Inherits (t t' : JobTable β) : Prop := t'.bodies ⊆ t.bodies

theorem inherits_of_eq (h : t'.bodies = t.bodies) : Inherits t t' :=
  fun _ hx => h ▸ hx

theorem inherits_refl (t : JobTable β) : Inherits t t := List.Subset.refl _

theorem Inherits.trans (h : Inherits t t') (h' : Inherits t' t'') : Inherits t t'' :=
  List.Subset.trans h' h

theorem inherits_foldl {f : JobTable β → Nat → JobTable β}
    (hf : ∀ (t : JobTable β) id, Inherits t (f t id)) (ids : List Nat) (t : JobTable β) :
    Inherits t (ids.foldl f t) := by
  induction ids generalizing t with
  | nil => exact inherits_refl t
  | cons id rest ih => exact (hf t id).trans (ih (f t id))

theorem inherits_want {effect : JobEffect β} (t : JobTable β) (h : effect.started? = none) :
    Inherits t (t.want effect) := by
  refine inherits_of_eq ?_
  rw [want_eq, bodies_wants, List.filterMap_cons_none h, List.filterMap_nil, List.append_nil]

theorem inherits_log (t : JobTable β) (level : LogLevel) (text : String) :
    Inherits t (t.log level text) := t.inherits_want rfl

theorem inherits_publish (t : JobTable β) (id : Nat) (type : EventType) :
    Inherits t (t.publish id type) := by
  refine inherits_of_eq ?_
  rw [publish_eq, bodies_wants, filterMap_started?_news, List.append_nil]

theorem inherits_update {f : JobEntry β → JobEntry β}
    (hf : ∀ e, e.id = id → (f e).unstarted? = none ∨ (f e).unstarted? = e.unstarted?) :
    Inherits t (t.update id f) := by
  refine List.append_subset.mpr ⟨fun x hx => ?_, List.subset_append_right _ _⟩
  obtain ⟨e', hmem', hx⟩ := List.mem_filterMap.mp hx
  obtain ⟨e, hmem, rfl⟩ := List.mem_map.mp hmem'
  refine List.mem_append_left _ (List.mem_filterMap.mpr ⟨e, hmem, ?_⟩)
  split at hx
  next hid =>
    rcases hf e hid with hnone | hsame
    · rw [hnone] at hx
      cases hx
    · exact hsame.symm.trans hx
  next => exact hx

theorem inherits_filter (t : JobTable β) (p : JobEntry β → Bool) :
    Inherits t { t with jobs := t.jobs.filter p } := by
  have hkept := List.filterMap_subset JobEntry.unstarted? (List.filter_subset_self (p := p) t.jobs)
  exact List.append_subset.mpr
    ⟨List.Subset.trans hkept (List.subset_append_left _ _), List.subset_append_right _ _⟩

theorem inherits_change {s : JobSnapshot} (hs : s.id = id) : Inherits t (t.change id s) := by
  have hwritten : Inherits t (t.update id fun e => { e with snapshot := s }) := by
    refine inherits_update fun e he => .inr ?_
    have hid : s.id = e.id := hs.trans he.symm
    exact congrArg (fun n => e.body.map (n, ·)) hid
  exact (hwritten.trans (inherits_want _ rfl)).trans (inherits_publish _ _ _)

theorem inherits_transition {edit : JobSnapshot → JobSnapshot} (t : JobTable β) (id : Nat)
    (next : JobState) (hedit : IsEdit edit) : Inherits t (t.transition id next edit).1 := by
  unfold transition
  split
  next => exact inherits_refl t
  next s hs =>
    split
    next => exact inherits_change ((hedit.same _).id.trans (mem_ids_of_snapshot? hs).2)
    next => exact inherits_log _ _ _

theorem inherits_takeBody (t : JobTable β) (id : Nat) : Inherits t (t.takeBody id) := by
  have hempty : Inherits t (t.update id fun e => { e with body := none }) :=
    inherits_update fun e _ => .inl rfl
  exact hempty.trans (inherits_want _ rfl)

theorem inherits_start (t : JobTable β) (now id : Nat) : Inherits t (t.start now id) := by
  cases he : t.job? id with
  | none =>
    simp only [start, he]
    exact inherits_refl t
  | some e =>
    cases hb : e.body with
    | none =>
      simp only [start, he, hb]
      exact inherits_log _ _ _
    | some body =>
      have hrun : Inherits t ((t.takeBody id).transition id .running fun s =>
          { s with timeStarted := some now }).1 :=
        (t.inherits_takeBody id).trans (inherits_transition _ id .running (isEdit_begin now))
      simp only [start, he, hb]
      split
      next =>
        -- the body is wanted after it was taken out, so it is looked for in the table before
        have hlogged := hrun.trans (inherits_log _ .info s!"Job {id} ({e.snapshot.method}) started")
        unfold Inherits
        rw [want_eq, bodies_wants]
        refine List.append_subset.mpr ⟨hlogged, fun x hx => ?_⟩
        cases List.mem_singleton.mp hx
        exact mem_bodies_of_job? he hb
      next => exact hrun

theorem inherits_release (t : JobTable β) (now id : Nat) : Inherits t (t.release now id) := by
  cases hlock : (t.snapshot? id).bind (·.lock) with
  | none =>
    simp only [release, hlock]
    exact inherits_refl t
  | some lock =>
    cases hq : t.queue? lock with
    | none =>
      simp only [release, hlock, hq]
      exact inherits_refl t
    | some q =>
      rw [release_eq t now id hlock hq]
      split
      next => exact inherits_refl t
      next =>
        split
        next => exact inherits_refl t
        next heir rest _ =>
          have hset : Inherits t (t.setQueue lock ⟨some heir, rest⟩) := inherits_refl t
          exact (hset.trans (inherits_log _ _ _)).trans (inherits_start _ _ _)

theorem inherits_evict (t : JobTable β) (id : Nat) : Inherits t (t.evict id) :=
  ((t.inherits_publish id .removed).trans (inherits_filter _ _)).trans (inherits_want _ rfl)

theorem inherits_retire (t : JobTable β) (id : Nat) : Inherits t (t.retire id) := by
  unfold retire
  split
  next => exact (t.inherits_filter _).trans (inherits_want _ rfl)
  next => exact inherits_foldl inherits_evict _ _

theorem inherits_finishUnstarted (t : JobTable β) (now id : Nat) (state : JobState)
    (error : CallError) : Inherits t (t.finishUnstarted now id state error) := by
  have hended := (t.inherits_takeBody id).trans
    (inherits_transition _ id state (isEdit_dismiss now error))
  exact hended.trans (inherits_retire _ id)

theorem bodies_append (t : JobTable β) (next : Nat) (e : JobEntry β) :
    ({ t with nextId := next, jobs := t.jobs ++ [e] } : JobTable β).bodies ⊆
      t.bodies ++ e.unstarted?.toList := by
  intro x hx
  rcases List.mem_append.mp hx with hx | hstarted
  · rw [List.filterMap_append] at hx
    rcases List.mem_append.mp hx with hold | hnew
    · exact List.mem_append_left _ (List.mem_append_left _ hold)
    · exact List.mem_append_right _ (by simpa using hnew)
  · exact List.mem_append_left _ (List.mem_append_right _ hstarted)

theorem bodies_enter (t : JobTable β) (now : Nat) (job : NewJob β) :
    (t.enter now job).bodies ⊆ t.bodies ++ [(t.nextId, job.body)] := by
  let entered : JobTable β := { t.log .debug s!"Job {t.nextId} ({job.method}) submitted" with
    nextId := t.nextId + 1, jobs := t.jobs ++ [fresh now t.nextId job] }
  have hentered : entered.bodies ⊆ t.bodies ++ [(t.nextId, job.body)] := by
    refine List.Subset.trans (bodies_append _ _ (fresh now t.nextId job)) ?_
    exact List.append_subset.mpr
      ⟨List.Subset.trans (t.inherits_log _ _) (List.subset_append_left _ _),
        List.subset_append_right _ _⟩
  have htold : Inherits entered (t.enter now job) :=
    (inherits_want entered rfl).trans (inherits_publish _ _ _)
  exact List.Subset.trans htold hentered

theorem inherits_queueUp (t : JobTable β) (now id : Nat) (lock : String) (timeout : Option Nat) :
    Inherits t (t.queueUp now id lock timeout) := by
  have hset : ∀ q, Inherits t (t.setQueue lock q) := fun _ => inherits_refl t
  unfold queueUp
  dsimp only
  split
  next => exact (hset _).trans (inherits_start _ _ _)
  next =>
    have hlogged := (hset { (t.queue? lock).getD {} with
      waiting := ((t.queue? lock).getD {}).waiting ++ [id] }).trans
        (inherits_log _ .debug s!"Job {id} is waiting for lock {lock}")
    cases timeout with
    | none => exact hlogged
    | some ms => exact hlogged.trans (inherits_want _ rfl)

/-- The one body that a submission can bring in is that of a job which no other stands for. -/
theorem bodies_submit (t : JobTable β) (now : Nat) (job : NewJob β) : (t.submit now job).1.bodies ⊆
    t.bodies ++ if t.standIn? job = none then [(t.nextId, job.body)] else [] := by
  cases hstand : t.standIn? job with
  | some found =>
    simp only [submit, hstand]
    exact List.Subset.trans (inherits_log _ _ _) (List.subset_append_left _ _)
  | none =>
    simp only [submit, hstand, if_true]
    split
    next => exact List.Subset.trans (inherits_queueUp _ _ _ _ _) (t.bodies_enter now job)
    next => exact List.Subset.trans (inherits_start _ _ _) (t.bodies_enter now job)

theorem inherits_ask (t : JobTable β) (id : Nat) :
    Inherits t ((t.update id fun e => { e with cancelled := true }).want (.cancel id)) := by
  have hmarked : Inherits t (t.update id fun e => { e with cancelled := true }) :=
    inherits_update fun _ _ => .inr rfl
  exact hmarked.trans (inherits_want _ rfl)

theorem inherits_abort (t : JobTable β) (now id : Nat) : Inherits t (t.abort now id).1 := by
  cases he : t.job? id with
  | none =>
    simp only [abort, he]
    exact inherits_refl t
  | some e =>
    cases hstate : e.state with
    | waiting =>
      simp only [abort, he, hstate]
      have hended := (t.inherits_release now id).trans
        (inherits_finishUnstarted _ now id .aborted .aborted)
      exact hended.trans (inherits_log _ _ _)
    | running =>
      simp only [abort, he, hstate]
      split
      next => exact (t.inherits_ask id).trans (inherits_log _ _ _)
      next => exact inherits_refl t
    | success | failed | aborted =>
      simp only [abort, he, hstate]
      exact inherits_refl t

theorem inherits_stopAll (t : JobTable β) (now : Nat) : Inherits t (t.stopAll now).1 := by
  have hasked := inherits_foldl inherits_ask t.runningIds t
  have hended := inherits_foldl (fun t id => t.inherits_finishUnstarted now id .aborted .aborted)
    ((t.jobs.filter fun e => e.state = .waiting).map JobEntry.id)
    (t.runningIds.foldl (fun t id =>
      (t.update id fun e => { e with cancelled := true }).want (.cancel id)) t)
  exact hasked.trans hended

theorem inherits_progress (t : JobTable β) (id percent : Nat) (description : Option String) :
    Inherits t (t.progress id percent description) := by
  unfold progress
  split
  next => exact inherits_refl t
  next s hs =>
    dsimp only
    split
    next => exact inherits_change (mem_ids_of_snapshot? hs).2
    next => exact inherits_refl t

theorem inherits_finish (t : JobTable β) (now id : Nat) (outcome : Except CallError Json) :
    Inherits t (t.finish now id outcome) := by
  cases he : t.job? id with
  | none =>
    simp only [finish, he]
    exact inherits_refl t
  | some e =>
    have hlogged : Inherits t (t.want (.log (endRecord id (settled e.cancelled outcome)))) :=
      t.inherits_want rfl
    have hnoted : Inherits t (t.noteEnd now id outcome e) :=
      hlogged.trans (inherits_transition _ id _ (isEdit_endSnapshot now _))
    rw [finish_eq now outcome he]
    exact (hnoted.trans (inherits_release _ now id)).trans (inherits_retire _ id)

theorem inherits_lockTimedOut (t : JobTable β) (now id : Nat) :
    Inherits t (t.lockTimedOut now id) := by
  unfold lockTimedOut
  split
  next => exact inherits_refl t
  next =>
    split
    next =>
      dsimp only
      exact ((inherits_log _ _ _).trans (inherits_release _ _ _)).trans
        (inherits_finishUnstarted _ _ _ _ _)
    next => exact inherits_refl t

theorem inherits_report (t : JobTable β) (now : Nat) (r : JobReport) :
    Inherits t (t.report now r) := by
  cases r with
  | progressed id percent description => exact t.inherits_progress id percent description
  | finished id outcome => exact t.inherits_finish now id outcome
  | lockTimedOut id => exact t.inherits_lockTimedOut now id

end JobTable

end Switchboard
