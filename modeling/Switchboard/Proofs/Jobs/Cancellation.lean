import Switchboard.Proofs.Jobs.Encounters

namespace Switchboard

/-- How a job that was asked to stop ends when its body returns. -/
def JobSnapshot.Heeds (outcome : Except CallError Json) (s : JobSnapshot) : Prop :=
  match outcome with
  | .ok v => s.state = .success ∧ s.result = some v ∧ s.error = none
  | .error _ => s.state = .aborted ∧ s.result = none ∧ s.error = some .aborted

theorem JobEntry.heeds_settled {β : Type} {e : JobEntry β} (h : e.cancelled = true) (now : Nat)
    (outcome : Except CallError Json) : (e.settled now outcome).snapshot.Heeds outcome := by
  unfold settled JobTable.settled
  rw [h]
  cases outcome <;> exact ⟨rfl, rfl, rfl⟩

namespace JobReport

def outcomeOf? (id : Nat) : JobReport → Option (Except CallError Json)
  | .finished j outcome => if j = id then some outcome else none
  | _ => none

def outcomesOf (id : Nat) (reports : List JobReport) : List (Except CallError Json) :=
  reports.filterMap (outcomeOf? id)

theorem outcomesOf_append (id : Nat) (reports more : List JobReport) :
    outcomesOf id (reports ++ more) = outcomesOf id reports ++ outcomesOf id more :=
  List.filterMap_append

theorem eq_finished_of_outcomeOf? {id : Nat} {r : JobReport} {outcome : Except CallError Json}
    (h : r.outcomeOf? id = some outcome) : r = .finished id outcome := by
  cases r with
  | finished j o =>
    have h : (if j = id then some o else none) = some outcome := h
    split at h
    next heq => rw [heq, Option.some.inj h]
    next => cases h
  | progressed | lockTimedOut => cases h

theorem outcomesOf_nil_of_sender {id : Nat} {r : JobReport} (h : r.sender? ≠ some id) :
    outcomesOf id [r] = [] := by
  have hnone : r.outcomeOf? id = none := by
    cases hr : r.outcomeOf? id with
    | none => rfl
    | some outcome =>
      rw [eq_finished_of_outcomeOf? hr] at h
      exact absurd rfl h
  rw [outcomesOf, List.filterMap_cons_none hnone, List.filterMap_nil]

end JobReport

namespace JobTable

variable {β : Type} {t : JobTable β} {id now : Nat} {e : JobEntry β}

/-- What is left of a table once a job that waits was aborted. -/
structure Withdrawn (t : JobTable β) (now id : Nat) (e : JobEntry β) (t' : JobTable β) : Prop where
  jobs : ∀ j, t'.job? j = (t.job? j).bind fun x =>
    let x' := if j = id then e.dismissed now .aborted .aborted else x
    if x'.state.isTerminal = true ∧ j ∉ t'.finished then none else some x'
  finished : t'.finished = (t.finished ++ lastingIds [e.snapshot]).rtake t.maxRetained
  left : ∃ lock holder before after, e.snapshot.lock = some lock ∧
    t.queue? lock = some ⟨some holder, before ++ id :: after⟩ ∧
    t'.queue? lock = some ⟨some holder, before ++ after⟩ ∧ id ∉ before ++ after ∧
    ∀ other, other ≠ lock → t'.queue? other = t.queue? other
  shown : t'.reveals = t.reveals ++ [(e.dismissed now .aborted .aborted).snapshot]
  starts : t'.starts = t.starts
  nextId : t'.nextId = t.nextId
  maxRetained : t'.maxRetained = t.maxRetained

theorem filter_ne_of_nodup {before after : List Nat} (h : (before ++ id :: after).Nodup) :
    (before ++ id :: after).filter (fun w => w != id) = before ++ after ∧ id ∉ before ++ after := by
  have hnot : id ∉ before ++ after := (List.nodup_cons.mp (List.nodup_middle.mp h)).1
  have hbefore : id ∉ before := fun hid => hnot (List.mem_append_left _ hid)
  refine ⟨?_, hnot⟩
  rw [← h.erase_eq_filter id, List.erase_append_right _ hbefore, List.erase_cons_head]

theorem CallsOff.job?_one {t' : JobTable β} (h : CallsOff now [e] t t') (he : t.job? id = some e)
    (j : Nat) : t'.job? j = (t.job? j).bind fun x =>
      let x' := if j = id then e.dismissed now .aborted .aborted else x
      if x'.state.isTerminal = true ∧ j ∉ t'.finished then none else some x' := by
  have hid : e.id = id := job?_id he
  cases hx : t.job? j with
  | none =>
    rcases h.sheds j with hkept | ⟨hgone, -⟩
    · rw [hx] at hkept
      exact hkept
    · exact hgone
  | some x =>
    have hxid : x.id = j := job?_id hx
    have hcalled : callingOff now ([e].map JobEntry.id) x =
        if j = id then e.dismissed now .aborted .aborted else x := by
      unfold callingOff
      by_cases hj : j = id
      · subst hj
        cases he.symm.trans hx
        simp
      · simp [hid, hxid, hj]
    exact h.job? hx hcalled

theorem Orderly.place (h : t.Orderly) (he : t.job? id = some e) (hwait : e.state = .waiting)
    (now : Nat) : ∃ lock holder before after, e.snapshot.lock = some lock ∧
      t.queue? lock = some ⟨some holder, before ++ id :: after⟩ ∧ id ∉ before ++ after ∧
      t.release now id = t.setQueue lock ⟨some holder, before ++ after⟩ := by
  obtain ⟨lock, holder, waiting, hl, hq, -, hrelease⟩ := h.release_waiting he hwait now
  have hmem : id ∈ waiting := by
    obtain ⟨holder', waiting', hq', hmem, -⟩ := h.waiter ⟨e, he, hwait, hl⟩
    cases hq.symm.trans hq'
    exact hmem
  have hnodup : waiting.Nodup := by
    obtain ⟨_, -, hsorted, -⟩ := hq ▸ h.queues lock
    exact (List.pairwise_cons.mp hsorted).2.imp Nat.ne_of_lt
  obtain ⟨before, after, rfl⟩ := List.append_of_mem hmem
  obtain ⟨hfilter, hnot⟩ := filter_ne_of_nodup hnodup
  rw [hfilter] at hrelease
  exact ⟨lock, holder, before, after, hl, hq, hnot, hrelease⟩

theorem Sound.withdrawn (h : t.Sound) (he : t.job? id = some e) (hwait : e.state = .waiting)
    (now : Nat) : Withdrawn t now id e (t.abort now id).1 := by
  obtain ⟨lock, holder, before, after, hl, hq, hnot, hrelease⟩ := h.orderly.place he hwait now
  have hid : e.id = id := job?_id he
  have hjobs : (t.release now id).job? = t.job? := by
    rw [hrelease]
    rfl
  have he' : (t.release now id).job? id = some e := by rw [hjobs, he]
  have hremembers : (t.release now id).Remembers [] :=
    h.remembers.sameOver (sameOver_release h.orderly.bodies now id)
  have hoff := hremembers.callsOff_one (e := e) (hid.symm ▸ he') hwait now
  have hqueues := sameQueues_finishUnstarted (t.release now id) now id .aborted .aborted
  have hthen : (t.abort now id).1 = ((t.release now id).callOff now e.id).wants
      [.log ⟨.info, s!"Job {id} aborted before it started"⟩] := by
    simp only [JobTable.abort, he, hwait, log_eq, hid]
    rfl
  rw [hthen]
  refine ⟨fun j => ?_, ?_, ⟨lock, holder, before, after, hl, hq, ?_, hnot, fun other hother => ?_⟩,
    ?_, ?_, ?_, ?_⟩
  · rw [← hjobs]
    exact hoff.job?_one he' j
  · rw [finished_wants, hoff.finished, hrelease]
    rfl
  · rw [queue?_wants, hid, callOff, hqueues.queue?, hrelease, queue?_setQueue, if_pos rfl]
  · rw [queue?_wants, hid, callOff, hqueues.queue?, hrelease, queue?_setQueue, if_neg hother]
  · rw [reveals_wants, hoff.reveals, hrelease]
    exact List.append_nil _
  · rw [starts_wants, hoff.starts, hrelease]
    exact List.append_nil _
  · rw [nextId_wants, hid, callOff, hqueues.nextId, hrelease]
    rfl
  · rw [maxRetained_wants, hoff.maxRetained, hrelease]
    rfl

end JobTable

namespace Workshop

variable {β : Type} {w w' : Workshop β} {maxRetained id now : Nat} {a : Act β} {going : Bool}
  {acts : List (Act β)} {effects : List (JobEffect β)} {e : JobEntry β}

/-- What is known of a job that was asked to stop, from the reports that were heard since then and
what was shown of it. -/
inductive Stopping (id : Nat) :
    List JobReport → List JobSnapshot → Option (JobEntry β) → Prop where
  | still {heard : List JobReport} {shown : List JobSnapshot} {e : JobEntry β} (hid : e.id = id)
      (hrun : e.state = .running) (hasked : e.cancelled = true)
      (hheard : JobReport.outcomesOf id heard = [])
      (hshown : ∀ s ∈ shown, s.state.isTerminal = false) : Stopping id heard shown (some e)
  | ended {heard : List JobReport} {shown : List JobSnapshot} {entry : Option (JobEntry β)}
      (outcome : Except CallError Json) (hheard : JobReport.outcomesOf id heard = [outcome])
      (hshown : ∀ s ∈ shown, s.state.isTerminal = true → s.Heeds outcome)
      (hentry : ∀ e, entry = some e → e.state.isTerminal = true ∧ e.snapshot.Heeds outcome) :
      Stopping id heard shown entry

section Step

variable {heard : List JobReport} {shown more : List JobSnapshot}
  {entry entry' : Option (JobEntry β)}

theorem Stopping.forgotten {e : JobEntry β} (h : Stopping id heard shown (some e))
    (hend : e.state.isTerminal = true) :
    Stopping id heard shown (none : Option (JobEntry β)) := by
  cases h with
  | still _ hrun =>
    rw [hrun] at hend
    cases hend
  | ended outcome hheard hshown =>
    refine .ended outcome hheard hshown fun x hx => ?_
    cases hx

theorem Stopping.meets {held : Option String} {e e' : JobEntry β} (hid : e.id = id)
    (hrun : e.state = .running) (hasked : e.cancelled = true)
    (hheard : JobReport.outcomesOf id heard = []) (hshown : ∀ s ∈ shown, s.state.isTerminal = false)
    (hmeets : Meets a held e more e') :
    Stopping id (heard ++ a.heard?.toList) (shown ++ more) (some e') := by
  subst hid
  have hstill := hmeets.still_open hshown
  have hends {outcome : Except CallError Json} := hmeets.first_end (P := (·.Heeds outcome)) hshown
  cases hmeets with
  | spared hunheard =>
    refine .still rfl hrun hasked ?_ (hstill (JobEntry.unfinished_of_running hrun))
    rw [JobReport.outcomesOf_append, hheard, List.nil_append]
    cases hr : a.heard? with
    | none => rfl
    | some r => exact JobReport.outcomesOf_nil_of_sender (hunheard hrun r hr)
  | begins now hwait | dismissed _ _ _ hwait =>
    rw [hrun] at hwait
    cases hwait
  | reports percent description _ hreport =>
    refine .still rfl hrun hasked ?_ (hstill (JobEntry.unfinished_of_running hrun))
    rw [hreport, JobReport.outcomesOf_append, hheard]
    rfl
  | asked _ hquiet =>
    refine .still rfl hrun rfl ?_ (hstill (JobEntry.unfinished_of_running hrun))
    rw [hquiet, Option.toList_none, List.append_nil, hheard]
  | settled now outcome _ hreport =>
    have hheeds := JobEntry.heeds_settled hasked now outcome
    refine .ended outcome ?_ (hends hheeds) fun x hx => ?_
    · rw [hreport, JobReport.outcomesOf_append, hheard, List.nil_append]
      exact List.filterMap_cons_some (if_pos rfl)
    · rw [← Option.some.inj hx]
      exact ⟨JobTable.isTerminal_of_settled now outcome e, hheeds⟩

/-- A job that has ended as it had to stays so, since nothing more is heard of its body. -/
theorem Stopping.fate (h : Stopping id heard shown entry) (hfate : Fate w a id entry more entry')
    (hlow : id < w.table.nextId)
    (howed : ∀ r, a.heard? = some r → r.finished? = some id →
      ∃ e, entry = some e ∧ e.state = .running) :
    Stopping id (heard ++ a.heard?.toList) (shown ++ more) entry' := by
  cases h with
  | still hid hrun hasked hheard hshown =>
    cases hfate with
    | met hmeets => exact .meets hid hrun hasked hheard hshown hmeets
    | forgotten hmeets hend =>
      exact (Stopping.meets hid hrun hasked hheard hshown hmeets).forgotten hend
  | ended outcome hheard hshown hentry =>
    have hnothing : JobReport.outcomesOf id (heard ++ a.heard?.toList) = [outcome] := by
      rw [JobReport.outcomesOf_append, hheard]
      cases hr : a.heard? with
      | none => rfl
      | some r =>
        cases ho : r.outcomeOf? id with
        | none => rw [Option.toList_some, JobReport.outcomesOf, List.filterMap_cons_none ho]; rfl
        | some o =>
          rw [JobReport.eq_finished_of_outcomeOf? ho] at hr
          obtain ⟨e, he, hrun⟩ := howed _ hr rfl
          have hend := (hentry e he).1
          rw [hrun] at hend
          cases hend
    have hold : id ≠ w.table.nextId := Nat.ne_of_lt hlow
    obtain ⟨rfl, hgone | rfl⟩ := hfate.of_ended (fun e he => (hentry e he).1) hold
    · rw [List.append_nil, hgone]
      exact .ended outcome hnothing hshown fun x hx => by cases hx
    · rw [List.append_nil]
      exact .ended outcome hnothing hshown hentry

theorem Stopping.heeds {s : JobSnapshot} (h : Stopping id heard shown entry)
    (hs : s ∈ shown ∨ ∃ e, entry = some e ∧ e.snapshot = s) (hend : s.state.isTerminal = true) :
    ∃ outcome, JobReport.outcomesOf id heard = [outcome] ∧ s.Heeds outcome ∧
      ∀ e, entry = some e → e.state ≠ .running := by
  cases h with
  | still _ hrun _ _ hopen =>
    rcases hs with hs | ⟨e, he, rfl⟩
    · cases (hopen s hs).symm.trans hend
    · cases he
      rw [show JobSnapshot.state _ = .running from hrun] at hend
      cases hend
  | ended outcome hheard hshown hover =>
    refine ⟨outcome, hheard, ?_, fun e he hrun => ?_⟩
    · rcases hs with hs | ⟨e, he, rfl⟩
      · exact hshown s hs hend
      · exact (hover e he).2
    · have hover := (hover e he).1
      rw [hrun] at hover
      cases hover

end Step

theorem Course.stopping {rule : Workshop β → Act β → Prop}
    (h : Course rule w going acts effects w') (hw : w.Sound) (he : w.table.job? id = some e)
    (hrun : e.state = .running) (hasked : e.cancelled = true) :
    Stopping id (heardIn acts) (shownOf id effects) (w'.table.job? id) := by
  have hlow : id < w.table.nextId := hw.table.inOrder.low_of_job? he
  induction h with
  | start =>
    rw [he]
    refine .still (JobTable.job?_id he) hrun hasked rfl fun s hs => ?_
    cases hs
  | @next going acts effects w' h a hcan _ hopen ih =>
    rw [heardIn_append, heardIn_singleton, shownOf_append]
    have hnext : w.table.nextId ≤ w'.table.nextId := (h.recounts hw).narrates.next_le
    refine ih.fate (h.fate hw hcan hopen id) (Nat.lt_of_lt_of_le hlow hnext) ?_
    intro r hr hend
    have howed := mem_owed_of_mail (hcan.mem_mail hr) hend
    obtain ⟨held, x, hx, hxrun, -⟩ := (h.accounted hw).1.runs id howed
    exact ⟨x, hx, hxrun⟩

/-- A job that was asked to stop ends as what its body returns has it. -/
theorem Course.heeds {rule : Workshop β → Act β → Prop}
    (h : Course rule w going acts effects w') (hw : w.Sound) (he : w.table.job? id = some e)
    (hrun : e.state = .running) (hasked : e.cancelled = true) {s : JobSnapshot}
    (hs : s ∈ shownOf id effects ∨ w'.table.snapshot? id = some s)
    (hend : s.state.isTerminal = true) :
    ∃ outcome, JobReport.outcomesOf id (w.mail ++ sentIn acts) = [outcome] ∧ s.Heeds outcome := by
  have hstopping := h.stopping hw he hrun hasked
  obtain ⟨outcome, hheard, hheeds, hover⟩ :=
    hstopping.heeds (hs.imp_right JobTable.job?_of_snapshot?) hend
  have hnone : id ∉ w'.owed := (h.accounted hw).1.owes_nothing hover
  have hmail : JobReport.outcomesOf id w'.mail = [] := by
    apply List.filterMap_eq_nil_iff.mpr
    intro r hr
    cases ho : r.outcomeOf? id with
    | none => rfl
    | some o =>
      rw [JobReport.eq_finished_of_outcomeOf? ho] at hr
      exact absurd (mem_owed_of_mail hr rfl) hnone
  have hperm := h.mail_perm.filterMap (JobReport.outcomeOf? id)
  change (JobReport.outcomesOf id _).Perm (JobReport.outcomesOf id _) at hperm
  rw [JobReport.outcomesOf_append id (heardIn acts), hheard, hmail, List.append_nil] at hperm
  exact ⟨outcome, List.perm_singleton.mp hperm, hheeds⟩

structure Unmoved (w : Workshop β) (now id : Nat) (answer : Except CallError Unit) : Prop where
  answer : (w.table.abort now id).2 = answer
  table : (w.table.abort now id).1 = w.table
  same : w.abort now id = w

structure Left (w : Workshop β) (now id : Nat) (e : JobEntry β) : Prop where
  answer : (w.table.abort now id).2 = .ok ()
  table : JobTable.Withdrawn w.table now id e (w.table.abort now id).1
  stops : stopsOf (w.table.abort now id).1.effects = []
  same : w.abort now id = { w with table := (w.abort now id).table }

/-- A job that runs is asked to stop, and nothing else has changed. However the workshop goes on, if
the job ends, then it heeds what its body has returned. -/
structure AskedToStop (w : Workshop β) (now id : Nat) : Prop where
  answer : (w.table.abort now id).2 = .ok ()
  told : (w.table.abort now id).1.effects =
    [.cancel id, .log ⟨.info, s!"Abort requested for job {id}"⟩]
  same : w.abort now id = { w with table := w.table.update id JobEntry.asked }
  ends : ∀ going acts effects w', Course (fun _ _ => True) (w.abort now id) going acts effects w' →
    ∀ s, s ∈ shownOf id effects ∨ w'.table.snapshot? id = some s → s.state.isTerminal = true →
    ∃ outcome, JobReport.outcomesOf id (w.mail ++ sentIn acts) = [outcome] ∧ s.Heeds outcome

theorem Sound.unmoved {answer : Except CallError Unit} (h : w.Sound)
    (heq : w.table.abort now id = (w.table, answer)) : Unmoved w now id answer := by
  refine ⟨by rw [heq], by rw [heq], ?_⟩
  unfold Workshop.abort
  rw [heq]
  exact adopt_self h.settled

theorem Sound.left (h : w.Sound) (he : w.table.job? id = some e) (hwait : e.state = .waiting)
    (now : Nat) : Left w now id e := by
  have hwithdrawn := h.table.withdrawn he hwait now
  have htold := (h.table.numbered.tells_abort now id).recounts
  obtain ⟨effects, heffects, hstops, -⟩ := htold
  rw [h.settled, List.nil_append] at heffects
  refine ⟨by simp only [JobTable.abort, he, hwait], hwithdrawn, ?_, ?_⟩
  · rw [heffects, hstops]
    simp [JobTable.stopsOfAbort, he, hwait]
  · unfold Workshop.abort Workshop.adopt
    rw [hwithdrawn.starts, h.starts, List.map_nil, List.append_nil, List.append_nil]

theorem Sound.askedToStop (h : w.Sound) (he : w.table.job? id = some e) (hrun : e.state = .running)
    (habortable : e.snapshot.abortable = true) (now : Nat) : AskedToStop w now id := by
  have heq : w.table.abort now id = ((w.table.update id JobEntry.asked).wants
      [.cancel id, .log ⟨.info, s!"Abort requested for job {id}"⟩], .ok ()) := by
    simp only [JobTable.abort, he, hrun, habortable, if_true, JobTable.log_eq, JobTable.want_eq,
      JobTable.wants, List.append_assoc]
    rfl
  have hsettled : (w.table.update id JobEntry.asked).effects = [] := h.settled
  have hsame : w.abort now id = { w with table := w.table.update id JobEntry.asked } := by
    unfold Workshop.abort
    rw [heq]
    exact adopt_wants hsettled rfl
  refine ⟨by rw [heq], by rw [heq, JobTable.wants, hsettled, List.nil_append], hsame, ?_⟩
  intro going acts effects w' hcourse s hs hend
  have hnow : (w.abort now id).table.job? id = some e.asked := by
    rw [hsame]
    have hupdated := JobTable.sameBut_update (f := JobEntry.asked) he fun _ hid => hid
    rw [hupdated.job?, if_pos rfl]
  have hmail : (w.abort now id).mail = w.mail := rfl
  have hheeds := hcourse.heeds (h.abort now id).1 hnow hrun rfl hs hend
  rwa [hmail] at hheeds

/-- In whatever state a table at work has a job, an abort comes to what the state allows. -/
theorem abort_by_state (h : Reachable maxRetained w) (now id : Nat) :
    (w.table.job? id = none → Unmoved w now id (.error (.jobNotFound id))) ∧
      ∀ e, w.table.job? id = some e →
        (e.state.isTerminal = true → Unmoved w now id (.ok ())) ∧
        (e.state = .waiting → Left w now id e) ∧
        (e.state = .running → e.snapshot.abortable = false →
          Unmoved w now id (.error (.notAbortable id))) ∧
        (e.state = .running → e.snapshot.abortable = true → AskedToStop w now id) := by
  have hsound := (sound_of_reachable h).1
  refine ⟨fun he => hsound.unmoved ?_, fun e he => ⟨fun hend => hsound.unmoved ?_,
    fun hwait => hsound.left he hwait now, fun hrun habortable => hsound.unmoved ?_,
    fun hrun habortable => hsound.askedToStop he hrun habortable now⟩⟩
  · simp only [JobTable.abort, he]
  · cases hs : e.state with
    | waiting | running =>
      rw [hs] at hend
      cases hend
    | success | failed | aborted => simp only [JobTable.abort, he, hs]
  · simp [JobTable.abort, he, hrun, habortable]

/-- To the crowd comes one more job, which may be aborted. -/
def yielding : Workshop Nat := crowd.submit 5 { lockedJob "M" 50 with abortable := true }

def yields : List (Act Nat) :=
  [.endBody 5 (.error (.failed "e")), .handle 7 [] (.finished 5 (.error (.failed "e"))) []]

def yielded : Workshop Nat := yields.foldl does (yielding.abort 6 5)

theorem abort_by_state_of_yielding : Unmoved yielding 6 9 (.error (.jobNotFound 9)) ∧
    Unmoved yielding 6 1 (.ok ()) ∧ Unmoved yielding 6 2 (.error (.notAbortable 2)) ∧
    (∃ e, yielding.table.job? 3 = some e ∧ Left yielding 6 3 e) ∧
    AskedToStop yielding 6 5 ∧
    ∃ s, yielded.table.snapshot? 5 = some s ∧ s.Heeds (.error (.failed "e")) := by
  have hcome : Reachable 1 yielding := crowd_reachable.tail (Step.submit _ 5 _)
  have hended := (abort_by_state hcome 6 1).2 _ rfl
  have hkept := (abort_by_state hcome 6 2).2 _ rfl
  have hwaiting := (abort_by_state hcome 6 3).2 _ rfl
  have hasked := ((abort_by_state hcome 6 5).2 _ rfl).2.2.2 rfl rfl
  have hstart : Course (fun _ _ => True) (yielding.abort 6 5) true [] [] (yielding.abort 6 5) :=
    .start
  have hwork : 5 ∈ (yielding.abort 6 5).atWork := by decide
  have hfails := (hstart.next (.endBody 5 (.error (.failed "e"))) hwork trivial (.inl rfl)).next
    (.handle 7 [] (.finished 5 (.error (.failed "e"))) []) rfl trivial (.inl rfl)
  refine ⟨(abort_by_state hcome 6 9).1 rfl, hended.1 rfl, hkept.2.2.1 rfl rfl,
    ⟨_, rfl, hwaiting.2.1 rfl⟩, hasked, _, rfl, ?_⟩
  obtain ⟨outcome, hreturned, hheeds⟩ := hasked.ends _ yields _ yielded hfails _ (.inr rfl) rfl
  have hfailed : JobReport.outcomesOf 5 (yielding.mail ++ sentIn yields) =
      [.error (.failed "e")] := rfl
  obtain rfl := List.singleton_inj.mp (hfailed.symm.trans hreturned)
  exact hheeds

end Workshop

end Switchboard
