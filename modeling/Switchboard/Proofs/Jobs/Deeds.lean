import Switchboard.Proofs.Jobs.Partings

namespace Switchboard

namespace JobEntry

variable {β : Type}

def reported (percent : Nat) (description : Option String) (e : JobEntry β) : JobEntry β :=
  { e with snapshot := { e.snapshot with
    progress := e.snapshot.progress.report percent description } }

def asked (e : JobEntry β) : JobEntry β := { e with cancelled := true }

/-- How a job goes on, what is shown of that, and the body that is started. -/
inductive Goes (e : JobEntry β) : List JobSnapshot → List β → JobEntry β → Prop where
  | begins (now : Nat) (body : β) (hwait : e.state = .waiting) (hbody : e.body = some body) :
      Goes e [(e.begun now).snapshot] [body] (e.begun now)
  | reports (percent : Nat) (description : Option String) (hrun : e.state = .running) :
      Goes e [(e.reported percent description).snapshot] [] (e.reported percent description)
  | asked (hrun : e.state = .running) : Goes e [] [] e.asked

inductive Ends (e : JobEntry β) : JobEntry β → Prop where
  | settled (now : Nat) (outcome : Except CallError Json) (hrun : e.state = .running)
      (hbody : e.body = none) : Ends e (e.settled now outcome)
  | dismissed (now : Nat) (hwait : e.state = .waiting) :
      Ends e (e.dismissed now .aborted .aborted)
  | timedOut (now : Nat) (lock : String) (hwait : e.state = .waiting)
      (hlock : e.snapshot.lock = some lock) :
      Ends e (e.dismissed now .failed (.lockTimeout lock))

variable {e e' : JobEntry β} {shown : List JobSnapshot} {bodies : List β}

theorem Goes.id (h : e.Goes shown bodies e') : e'.id = e.id := by
  cases h <;> rfl

theorem Goes.unfinished (h : e.Goes shown bodies e') :
    e.state.isTerminal = false ∧ e'.state.isTerminal = false := by
  cases h with
  | begins now body hwait => exact ⟨by rw [hwait]; rfl, rfl⟩
  | reports percent description hrun =>
    have hrun' : (e.reported percent description).state = .running := hrun
    exact ⟨by rw [hrun]; rfl, by rw [hrun']; rfl⟩
  | asked hrun =>
    have hrun' : e.asked.state = .running := hrun
    exact ⟨by rw [hrun]; rfl, by rw [hrun']; rfl⟩

theorem Goes.shown_is (h : e.Goes shown bodies e') : ∀ s ∈ shown, s = e'.snapshot := by
  cases h <;> simp

theorem Ends.unfinished (h : e.Ends e') : e.state.isTerminal = false := by
  cases h with
  | settled _ _ h | dismissed _ h | timedOut _ _ h =>
    rw [h]
    rfl

theorem Ends.terminal (h : e.Ends e') : e'.state.isTerminal = true := by
  cases h with
  | settled now outcome => exact JobTable.isTerminal_of_settled now outcome e
  | dismissed | timedOut => rfl

theorem Ends.sameJob (h : e.Ends e') : e.snapshot.SameJob e'.snapshot := by
  cases h with
  | settled now outcome =>
    unfold JobEntry.settled
    cases JobTable.settled e.cancelled outcome <;> (constructor <;> rfl)
  | dismissed | timedOut => constructor <;> rfl

theorem Ends.body (h : e.Ends e') : e'.body = none := by
  cases h with
  | settled now outcome hrun hbody => exact hbody
  | dismissed | timedOut => rfl

end JobEntry

namespace JobTable

variable {β : Type} {t₀ t t' t'' : JobTable β} {id now : Nat} {e e' : JobEntry β} {late : List Nat}

/-- Nothing has happened to the jobs. -/
structure Aside (t t' : JobTable β) : Prop where
  jobs : t'.jobs = t.jobs
  finished : t'.finished = t.finished
  nextId : t'.nextId = t.nextId
  maxRetained : t'.maxRetained = t.maxRetained
  reveals : t'.reveals = t.reveals
  starts : t'.starts = t.starts

/-- What the table does, deed by deed. A job that has ended is `late` until it is counted among the
finished ones. -/
inductive Deeds (t : JobTable β) : List Nat → JobTable β → Prop where
  | nothing : Deeds t [] t
  | aside {late : List Nat} {t' t'' : JobTable β} (h : Deeds t late t') (haside : Aside t' t'') :
      Deeds t late t''
  | entered {late : List Nat} {t' t'' : JobTable β} (h : Deeds t late t') (now : Nat)
      (job : NewJob β) (hnew : Entered t' t'' (fresh now t'.nextId job))
      (hshown : t''.reveals = t'.reveals ++ [(fresh now t'.nextId job).snapshot])
      (hstarts : t''.starts = t'.starts) : Deeds t late t''
  | goes {late : List Nat} {t' t'' : JobTable β} {id : Nat} {e e' : JobEntry β}
      {shown : List JobSnapshot} {bodies : List β} (h : Deeds t late t')
      (he : t'.job? id = some e) (hgoes : e.Goes shown bodies e') (hsame : SameBut t' t'' id e')
      (hshown : t''.reveals = t'.reveals ++ shown)
      (hstarts : t''.starts = t'.starts ++ bodies.map fun body => (id, body)) : Deeds t late t''
  | ended {t' t'' : JobTable β} {id : Nat} {e e' : JobEntry β} (h : Deeds t [] t')
      (he : t'.job? id = some e) (hends : e.Ends e') (hsame : SameBut t' t'' id e')
      (hshown : t''.reveals = t'.reveals ++ [e'.snapshot]) (hstarts : t''.starts = t'.starts) :
      Deeds t [id] t''
  | retired {t' : JobTable β} {id : Nat} (h : Deeds t [id] t') : Deeds t [] (t'.retire id)

theorem aside_wants {effects : List (JobEffect β)}
    (hshown : effects.filterMap JobEffect.revealed? = [])
    (hstarts : effects.filterMap JobEffect.started? = []) : Aside t (t.wants effects) :=
  ⟨rfl, rfl, rfl, rfl, by rw [reveals_wants, hshown, List.append_nil],
    by rw [starts_wants, hstarts, List.append_nil]⟩

theorem Deeds.log (h : Deeds t₀ late t) (level : LogLevel) (text : String) :
    Deeds t₀ late (t.log level text) := h.aside (aside_wants rfl rfl)

theorem Deeds.setQueue (h : Deeds t₀ late t) (lock : String) (q : LockQueue) :
    Deeds t₀ late (t.setQueue lock q) := h.aside ⟨rfl, rfl, rfl, rfl, rfl, rfl⟩

theorem Deeds.start (h : Deeds t₀ late t) (hb : t.Bodied) (now id : Nat) :
    Deeds t₀ late (t.start now id) := by
  cases he : t.job? id with
  | none =>
    simp only [JobTable.start, he]
    exact h
  | some e =>
    cases hbody : e.body with
    | none =>
      simp only [JobTable.start, he, hbody]
      exact h.log _ _
    | some body =>
      have hwait : e.state = .waiting := (hb id e he).mp (by rw [hbody]; rfl)
      obtain ⟨hsame, hstarts⟩ := start_spec now he hbody hwait
      exact h.goes he (.begins now body hwait hbody) hsame (reveals_start now he hbody hwait)
        hstarts

theorem Deeds.release (h : Deeds t₀ late t) (hb : t.Bodied) (now id : Nat) :
    Deeds t₀ late (t.release now id) := by
  cases hlock : (t.snapshot? id).bind (·.lock) with
  | none =>
    simp only [JobTable.release, hlock]
    exact h
  | some lock =>
    cases hq : t.queue? lock with
    | none =>
      simp only [JobTable.release, hlock, hq]
      exact h
    | some q =>
      rw [release_eq t now id hlock hq]
      split
      next => exact h.setQueue lock _
      next =>
        split
        next => exact h.aside ⟨rfl, rfl, rfl, rfl, rfl, rfl⟩
        next heir rest heq =>
          have hpassed := (h.setQueue lock ⟨some heir, rest⟩).log .debug
            s!"Lock {lock} passed from job {id} to job {heir}"
          exact hpassed.start hb now heir

theorem Deeds.finishUnstarted {state : JobState} {error : CallError} (h : Deeds t₀ [] t)
    (he : t.job? id = some e) (hends : e.Ends (e.dismissed now state error))
    (hnext : e.state.canBecome state = true) :
    Deeds t₀ [] (t.finishUnstarted now id state error) := by
  obtain ⟨t', hsame, hstarts, heq⟩ := finishUnstarted_spec now error he hnext
  have hshown := reveals_finishUnstarted now error he hnext
  rw [heq, reveals_retire] at hshown
  rw [heq]
  exact (h.ended he hends hsame hshown hstarts).retired

/-- The numbers are in order, and the finished jobs are but for those that are yet to be counted. -/
structure InOrder (t : JobTable β) (late : List Nat) : Prop where
  sorted : t.ids.Pairwise (· < ·)
  low : ∀ id ∈ t.ids, id < t.nextId
  remembers : t.Remembers late

theorem Sound.inOrder (h : t.Sound) : t.InOrder [] :=
  ⟨h.orderly.sorted, fun id hid => (h.orderly.numbered id hid).2, h.remembers⟩

theorem InOrder.nextId_not_mem (h : t.InOrder late) : t.nextId ∉ t.ids := fun hid =>
  Nat.lt_irrefl _ (h.low _ hid)

theorem InOrder.low_of_job? (h : t.InOrder late) (he : t.job? id = some e) : id < t.nextId :=
  h.low id (mem_ids_of_snapshot? (snapshot?_eq he)).1

theorem Aside.job? (h : Aside t t') (j : Nat) : t'.job? j = t.job? j := by
  rw [JobTable.job?, JobTable.job?, h.jobs]

theorem Aside.ids (h : Aside t t') : t'.ids = t.ids := by
  rw [JobTable.ids, JobTable.ids, h.jobs]

theorem InOrder.sameIds (h : t.InOrder late) {late' : List Nat} (hids : t'.ids = t.ids)
    (hnext : t'.nextId = t.nextId) (hr : t'.Remembers late') : t'.InOrder late' :=
  ⟨hids ▸ h.sorted, by rw [hids, hnext]; exact h.low, hr⟩

theorem InOrder.deeds (h : Deeds t late t') (hi : t.InOrder []) : t'.InOrder late := by
  induction h with
  | nothing => exact hi
  | aside _ haside ih =>
    refine ih.sameIds haside.ids haside.nextId (ih.remembers.sameOver ?_)
    exact ⟨fun j e _ => by rw [haside.job?], haside.finished, haside.maxRetained⟩
  | entered _ now job hnew _ _ ih =>
    refine ⟨?_, fun id hid => ?_, ih.remembers.sameOver (hnew.sameOver ih.nextId_not_mem rfl)⟩
    · rw [hnew.ids]
      refine List.pairwise_append.mpr ⟨ih.sorted, List.pairwise_singleton _ _, fun j hj k hk => ?_⟩
      exact List.mem_singleton.mp hk ▸ ih.low j hj
    · rw [hnew.ids] at hid
      rw [hnew.nextId]
      rcases List.mem_append.mp hid with hid | hid
      · exact Nat.lt_succ_of_lt (ih.low id hid)
      · exact List.mem_singleton.mp hid ▸ Nat.lt_succ_self _
  | goes _ he hgoes hsame _ _ ih =>
    obtain ⟨hopen, hopen'⟩ := hgoes.unfinished
    exact ih.sameIds hsame.ids hsame.nextId
      (ih.remembers.sameOver (hsame.sameOver he hopen hopen'))
  | ended _ he hends hsame _ hstarts ih =>
    have hended : JustEnded _ _ _ _ _ :=
      ⟨he, hsame, hends.terminal, hends.sameJob.lock, hends.body, hstarts⟩
    exact ih.sameIds hsame.ids hsame.nextId (ih.remembers.just_ended hended hends.unfinished)
  | retired _ ih =>
    obtain ⟨gone, hforgets, -⟩ := retire_forgets ih.remembers
    refine ⟨hforgets.ids ▸ ih.sorted.sublist List.filter_sublist, fun id hid => ?_,
      ih.remembers.retire⟩
    rw [hforgets.ids] at hid
    rw [hforgets.nextId]
    exact ih.low id (List.mem_of_mem_filter hid)

theorem InOrder.maxRetained_deeds (h : Deeds t late t') (hi : t.InOrder []) :
    t'.maxRetained = t.maxRetained := by
  induction h with
  | nothing => rfl
  | aside _ h ih => exact h.maxRetained.trans ih
  | entered _ _ _ h _ _ ih => exact h.maxRetained.trans ih
  | goes _ _ _ h _ _ ih | ended _ _ _ h _ _ ih => exact h.maxRetained.trans ih
  | retired h ih =>
    obtain ⟨gone, hforgets, -⟩ := retire_forgets (hi.deeds h).remembers
    exact hforgets.maxRetained.trans ih

theorem Entered.bodied {job : NewJob β} (h : Entered t t' (fresh now t.nextId job))
    (hb : t.Bodied) : t'.Bodied := by
  intro j x hx
  rw [h.job?] at hx
  split at hx
  next =>
    cases hx
    exact ⟨fun _ => rfl, fun _ => rfl⟩
  next => exact hb j x hx

theorem reveals_enter (t : JobTable β) (now : Nat) (job : NewJob β) :
    (t.enter now job).reveals = t.reveals ++ [(fresh now t.nextId job).snapshot] := by
  simp only [enter, reveals_publish, want_eq, reveals_wants]
  exact congrArg (· ++ _) (reveals_log t _ _)

theorem Sound.deeds_enter (h : t.Sound) (now : Nat) (job : NewJob β) :
    Deeds t [] (t.enter now job) := by
  obtain ⟨-, -, -, -, -, -, hstarts⟩ := enter_spec now job h.orderly.nextId_not_mem
  exact Deeds.nothing.entered now job (h.orderly.enter now job) (reveals_enter t now job) hstarts

theorem Deeds.queueUp (h : Deeds t₀ late t) (hb : t.Bodied) (now id : Nat) (lock : String)
    (timeout : Option Nat) : Deeds t₀ late (t.queueUp now id lock timeout) := by
  unfold JobTable.queueUp
  dsimp only
  split
  next => exact (h.setQueue lock _).start hb now id
  next =>
    cases timeout with
    | none => exact (h.setQueue lock _).log _ _
    | some ms => exact ((h.setQueue lock _).log _ _).aside (aside_wants rfl rfl)

theorem Sound.deeds_submit (h : t.Sound) (now : Nat) (job : NewJob β) :
    Deeds t [] (t.submit now job).1 := by
  have hentered := h.deeds_enter now job
  have hb := (h.orderly.enter now job).bodied h.orderly.bodies
  unfold JobTable.submit
  split
  next => exact Deeds.nothing.log _ _
  next =>
    dsimp only
    split
    next => exact hentered.queueUp hb now _ _ _
    next => exact hentered.start hb now _

theorem Sound.deeds_dismiss {state : JobState} {error : CallError} (h : t.Sound)
    (he : t.job? id = some e) (hwait : e.state = .waiting)
    (hends : e.Ends (e.dismissed now state error))
    (hnext : JobState.canBecome .waiting state = true) :
    Deeds t [] ((t.release now id).finishUnstarted now id state error) := by
  obtain ⟨lock, holder, waiting, -, -, -, hrelease⟩ := h.orderly.release_waiting he hwait now
  have he' : (t.release now id).job? id = some e := by
    rw [hrelease]
    exact he
  have hleft := Deeds.nothing.release h.orderly.bodies now id
  exact hleft.finishUnstarted he' hends (hwait ▸ hnext)

theorem Deeds.asked (h : Deeds t₀ late t) (he : t.job? id = some e) (hrun : e.state = .running) :
    Deeds t₀ late ((t.update id fun e => { e with cancelled := true }).want (.cancel id)) := by
  have hsame := sameBut_update (f := fun e => { e with cancelled := true }) he fun _ hid => hid
  refine h.goes he (.asked hrun) (hsame.wants _) ?_ ?_
  · rw [want_eq, reveals_wants]
    rfl
  · rw [want_eq, starts_wants, starts_update]
    rfl

theorem Sound.deeds_abort (h : t.Sound) (now id : Nat) : Deeds t [] (t.abort now id).1 := by
  cases he : t.job? id with
  | none =>
    simp only [JobTable.abort, he]
    exact .nothing
  | some e =>
    cases hs : e.state with
    | waiting =>
      simp only [JobTable.abort, he, hs]
      exact (h.deeds_dismiss he hs (.dismissed now hs) rfl).log _ _
    | running =>
      simp only [JobTable.abort, he, hs]
      split
      next => exact (Deeds.nothing.asked he hs).log _ _
      next => exact .nothing
    | success | failed | aborted =>
      simp only [JobTable.abort, he, hs]
      exact .nothing

theorem Sound.deeds_lockTimedOut (h : t.Sound) (now id : Nat) :
    Deeds t [] (t.lockTimedOut now id) := by
  cases he : t.job? id with
  | none =>
    simp only [JobTable.lockTimedOut, he]
    exact .nothing
  | some e =>
    by_cases hwait : e.state = .waiting
    · obtain ⟨lock, -, -, hlock, -, -, hrelease⟩ := h.orderly.release_waiting he hwait now
      simp only [JobTable.lockTimedOut, he, hwait, if_true, hlock, Option.getD_some]
      let warned := t.log .warn s!"Job {id} timed out waiting for lock {lock}"
      have hb : warned.Bodied := h.orderly.bodies
      have hleft := (Deeds.nothing.log (t := t) .warn
        s!"Job {id} timed out waiting for lock {lock}").release hb now id
      have he' : (warned.release now id).job? id = some e := by
        obtain ⟨_, _, _, -, -, -, hrelease⟩ :=
          (h.wants (t := t) [_]).orderly.release_waiting he hwait now
        rw [show warned.release now id = _ from hrelease]
        exact he
      exact hleft.finishUnstarted he' (.timedOut now lock hwait hlock) (hwait ▸ rfl)
    · simp only [JobTable.lockTimedOut, he, hwait, if_false]
      exact .nothing

theorem deeds_progress (t : JobTable β) (id percent : Nat) (description : Option String) :
    Deeds t [] (t.progress id percent description) := by
  cases he : t.job? id with
  | none =>
    simp only [JobTable.progress, snapshot?, he]
    exact .nothing
  | some e =>
    simp only [JobTable.progress, snapshot?_eq he]
    split
    next hp =>
      refine Deeds.nothing.goes he (.reports percent description hp.1)
        (sameBut_change he (job?_id he)) (reveals_change t id _) ?_
      rw [starts_change]
      exact (List.append_nil _).symm
    next => exact .nothing

theorem Sound.deeds_finish (h : t.Sound) (he : t.job? id = some e) (hrun : e.state = .running)
    (now : Nat) (outcome : Except CallError Json) : Deeds t [] (t.finish now id outcome) := by
  have hended := h.justEnded he hrun now outcome
  have hbody : e.body = none := h.orderly.body_of_not_waiting he (by simp [hrun])
  have hnoted := Deeds.nothing.ended he (.settled now outcome hrun hbody) hended.same
    (reveals_noteEnd now outcome he hrun) hended.starts
  rw [finish_eq now outcome he]
  exact (hnoted.release (hended.bodied h.orderly.bodies) now id).retired

def waitingIds (t : JobTable β) : List Nat :=
  (t.jobs.filter fun e => e.state = .waiting).map JobEntry.id

def ask (t : JobTable β) (id : Nat) : JobTable β :=
  (t.update id fun e => { e with cancelled := true }).want (.cancel id)

/-- Ends a job that waits, whatever the queue of its lock says. -/
def callOff (now : Nat) (t : JobTable β) (id : Nat) : JobTable β :=
  t.finishUnstarted now id .aborted .aborted

theorem stopAll_eq (t : JobTable β) (now : Nat) :
    t.stopAll now =
      ({ t.waitingIds.foldl (callOff now) (t.runningIds.foldl ask t) with locks := [] },
        t.runningIds.length + t.waitingIds.length) := rfl

theorem job?_ask (t : JobTable β) (id j : Nat) :
    (t.ask id).job? j = (t.job? j).map fun e => if j = id then e.asked else e := by
  have hfind : ((fun e : JobEntry β => e.id == j) ∘
      fun e => if e.id = id then { e with cancelled := true } else e) = fun e => e.id == j := by
    funext e
    dsimp only [Function.comp]
    split <;> rfl
  rw [ask, want_eq, job?_wants]
  simp only [job?, update, List.find?_map, hfind]
  refine Option.map_congr fun e he => ?_
  rw [job?_id he]
  rfl

theorem job?_asks (ids : List Nat) (t : JobTable β) (j : Nat) :
    (ids.foldl ask t).job? j = (t.job? j).map fun e => if j ∈ ids then e.asked else e := by
  induction ids generalizing t with
  | nil => simp
  | cons id rest ih =>
    rw [List.foldl_cons, ih, job?_ask, Option.map_map]
    refine Option.map_congr fun e _ => ?_
    by_cases hid : j = id <;> by_cases hrest : j ∈ rest <;> simp [hid, hrest, JobEntry.asked]

theorem Orderly.nodup_waitingIds (h : t.Orderly) : t.waitingIds.Nodup :=
  (h.sorted.imp Nat.ne_of_lt).sublist (List.filter_sublist.map JobEntry.id)

theorem Orderly.waiting_asks (h : t.Orderly) (ids : List Nat) (hid : id ∈ t.waitingIds) :
    ∃ e, (ids.foldl ask t).job? id = some e ∧ e.state = .waiting := by
  obtain ⟨e, he, hwait⟩ := job?_of_mem_filter h.sorted hid
  refine ⟨_, by rw [job?_asks, he, Option.map_some], ?_⟩
  split <;> exact of_decide_eq_true hwait

theorem Deeds.asks {ids : List Nat} (h : Deeds t₀ late t)
    (hids : ∀ id ∈ ids, ∃ e, t.job? id = some e ∧ e.state = .running) :
    Deeds t₀ late (ids.foldl ask t) := by
  induction ids generalizing t with
  | nil => exact h
  | cons id rest ih =>
    obtain ⟨e, he, hrun⟩ := hids id List.mem_cons_self
    refine ih (h.asked he hrun) fun j hj => ?_
    obtain ⟨x, hx, hxrun⟩ := hids j (List.mem_cons_of_mem _ hj)
    refine ⟨_, (job?_ask t id j).trans (by rw [hx, Option.map_some]), ?_⟩
    split <;> exact hxrun

theorem Deeds.callsOff {ids : List Nat} (h : Deeds t₀ [] t) (hr : t.Remembers [])
    (hids : ∀ id ∈ ids, ∃ e, t.job? id = some e ∧ e.state = .waiting) (hnodup : ids.Nodup)
    (now : Nat) : Deeds t₀ [] (ids.foldl (callOff now) t) := by
  induction ids generalizing t with
  | nil => exact h
  | cons id rest ih =>
    obtain ⟨e, he, hwait⟩ := hids id List.mem_cons_self
    obtain ⟨hnot, hrest⟩ := List.nodup_cons.mp hnodup
    obtain ⟨hr', hstay⟩ := hr.dismissed he hwait now
    have hended := h.finishUnstarted he (.dismissed now hwait) (hwait ▸ rfl)
    refine ih hended hr' (fun j hj => ?_) hrest
    obtain ⟨x, hx, hxwait⟩ := hids j (List.mem_cons_of_mem _ hj)
    exact ⟨x, hstay j x hx (by rw [hxwait]; rfl) fun heq => hnot (heq ▸ hj), hxwait⟩

theorem Sound.deeds_stopAll (h : t.Sound) (now : Nat) : Deeds t [] (t.stopAll now).1 := by
  have hrunning : ∀ id ∈ t.runningIds, ∃ e, t.job? id = some e ∧ e.state = .running := by
    intro id hid
    obtain ⟨e, he, hrun⟩ := job?_of_mem_filter h.orderly.sorted hid
    exact ⟨e, he, of_decide_eq_true hrun⟩
  obtain ⟨hasked, -⟩ := h.asked fun id hid => by
    obtain ⟨e, he, hrun⟩ := hrunning id hid
    exact ⟨_, e, he, hrun, rfl⟩
  have hwaiting := fun id (hid : id ∈ t.waitingIds) => h.orderly.waiting_asks t.runningIds hid
  have hdeeds := (Deeds.nothing.asks hrunning).callsOff hasked.remembers hwaiting
    h.orderly.nodup_waitingIds now
  exact hdeeds.aside ⟨rfl, rfl, rfl, rfl, rfl, rfl⟩

end JobTable

namespace Workshop

variable {β : Type} {w : Workshop β} {maxRetained : Nat} {going : Bool}
  {effects : List (JobEffect β)}

/-- A run of a workshop, and all that its table wanted on the way. The run is `going` until the jobs
are stopped: bodies end and timers go off after that, but the table takes nothing more. -/
inductive Annals (maxRetained : Nat) : Bool → List (JobEffect β) → Workshop β → Prop where
  | opened : Annals maxRetained true [] (opened maxRetained)
  | submit {effects : List (JobEffect β)} {w : Workshop β} (h : Annals maxRetained true effects w)
      (now : Nat) (job : NewJob β) :
      Annals maxRetained true (effects ++ (w.table.submit now job).1.effects) (w.submit now job)
  | abort {effects : List (JobEffect β)} {w : Workshop β} (h : Annals maxRetained true effects w)
      (now id : Nat) :
      Annals maxRetained true (effects ++ (w.table.abort now id).1.effects) (w.abort now id)
  | handle {effects : List (JobEffect β)} {w : Workshop β} (h : Annals maxRetained true effects w)
      (now : Nat) (before after : List JobReport) (r : JobReport)
      (hmail : w.mail = before ++ r :: after) :
      Annals maxRetained true (effects ++ (w.table.report now r).effects)
        (w.handle now r (before ++ after))
  | progress {going : Bool} {effects : List (JobEffect β)} {w : Workshop β}
      (h : Annals maxRetained going effects w) (id percent : Nat) (description : Option String) :
      Annals maxRetained going effects (w.send (.progressed id percent description))
  | endBody {going : Bool} {effects : List (JobEffect β)} {w : Workshop β}
      (h : Annals maxRetained going effects w) (id : Nat) (outcome : Except CallError Json)
      (hid : id ∈ w.atWork) : Annals maxRetained going effects (w.endBody id outcome)
  | timer {going : Bool} {effects : List (JobEffect β)} {w : Workshop β}
      (h : Annals maxRetained going effects w) (id : Nat) :
      Annals maxRetained going effects (w.send (.lockTimedOut id))
  | stop {effects : List (JobEffect β)} {w : Workshop β} (h : Annals maxRetained true effects w)
      (now : Nat) :
      Annals maxRetained false (effects ++ (w.table.stopAll now).1.effects)
        (w.adopt (w.table.stopAll now).1)

theorem reachable_iff_annals :
    Reachable maxRetained w ↔ ∃ effects, Annals maxRetained true effects w := by
  constructor
  · intro h
    induction h with
    | refl => exact ⟨[], .opened⟩
    | tail _ hstep ih =>
      obtain ⟨effects, h⟩ := ih
      cases hstep with
      | submit now job => exact ⟨_, h.submit now job⟩
      | abort now id => exact ⟨_, h.abort now id⟩
      | look => exact ⟨effects, h⟩
      | progress id percent description => exact ⟨effects, h.progress id percent description⟩
      | endBody id outcome hid => exact ⟨effects, h.endBody id outcome hid⟩
      | timer id => exact ⟨effects, h.timer id⟩
      | handle now before after r hmail => exact ⟨_, h.handle now before after r hmail⟩
  · rintro ⟨effects, h⟩
    generalize hgoing : true = going at h
    induction h with
    | opened => exact .refl
    | submit _ now job ih => exact (ih hgoing).tail (.submit _ now job)
    | abort _ now id ih => exact (ih hgoing).tail (.abort _ now id)
    | handle _ now before after r hmail ih =>
      exact (ih hgoing).tail (.handle _ now before after r hmail)
    | progress _ id percent description ih =>
      exact (ih hgoing).tail (.progress _ id percent description)
    | endBody _ id outcome hid ih => exact (ih hgoing).tail (.endBody _ id outcome hid)
    | timer _ id ih => exact (ih hgoing).tail (.timer _ id)
    | stop => cases hgoing

theorem Annals.sound (h : Annals maxRetained true effects w) : w.Sound :=
  (sound_of_reachable (reachable_iff_annals.mpr ⟨effects, h⟩)).1

theorem Sound.deeds_report {before after : List JobReport} {r : JobReport} (h : w.Sound)
    (hmail : w.mail = before ++ r :: after) (now : Nat) :
    JobTable.Deeds w.table [] (w.table.report now r) := by
  cases r with
  | progressed id percent description =>
    exact JobTable.deeds_progress w.table id percent description
  | lockTimedOut id => exact h.table.deeds_lockTimedOut now id
  | finished id outcome =>
    have howes := h.owes.perm (owed_handled hmail).symm
    obtain ⟨⟨lock, e, he, hrun, -⟩, -⟩ := (howes.running id).mp (by simp [JobReport.finished?])
    exact h.table.deeds_finish he hrun now outcome

/-- What holds of an empty table and is kept by all deeds holds at every moment of a run. -/
theorem Annals.invariant {P : List (JobEffect β) → JobTable β → List (Nat × β) → Prop}
    (hopened : P [] { maxRetained } [])
    (hdeeds : ∀ effects t started t', P effects t started → t.Sound → t.effects = [] →
      JobTable.Deeds t [] t' →
      P (effects ++ t'.effects) { t' with effects := [] } (started ++ t'.starts))
    (h : Annals maxRetained going effects w) : P effects w.table w.started := by
  induction h with
  | opened => exact hopened
  | submit h now job ih =>
    have hdone := h.sound.table.deeds_submit now job
    exact hdeeds _ _ _ _ ih h.sound.table h.sound.settled hdone
  | abort h now id ih =>
    have hdone := h.sound.table.deeds_abort now id
    exact hdeeds _ _ _ _ ih h.sound.table h.sound.settled hdone
  | handle h now before after r hmail ih =>
    have hdone := h.sound.deeds_report hmail now
    exact hdeeds _ _ _ _ ih h.sound.table h.sound.settled hdone
  | stop h now ih =>
    have hdone := h.sound.table.deeds_stopAll now
    exact hdeeds _ _ _ _ ih h.sound.table h.sound.settled hdone
  | progress _ _ _ _ ih | endBody _ _ _ _ ih | timer _ _ ih => exact ih

theorem Annals.maxRetained_eq (h : Annals maxRetained going effects w) :
    w.table.maxRetained = maxRetained := by
  refine h.invariant (P := fun _ t _ => t.maxRetained = maxRetained) rfl ?_
  intro effects t started t' hmax hsound _ hdeeds
  exact (hsound.inOrder.maxRetained_deeds hdeeds).trans hmax

theorem Annals.inOrder (h : Annals maxRetained going effects w) : w.table.InOrder [] := by
  refine h.invariant (P := fun _ t _ => t.InOrder []) (JobTable.sound_empty maxRetained).inOrder ?_
  intro effects t started t' hi _ _ hdeeds
  have hlater := hi.deeds hdeeds
  exact ⟨hlater.sorted, hlater.low, hlater.remembers.sameOver JobTable.sameOver_of_jobs⟩

end Workshop

end Switchboard
