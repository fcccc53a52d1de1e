import Switchboard.Proofs.Jobs.Aborts
import Switchboard.Proofs.Jobs.Shutdown

namespace Switchboard

namespace JobReport

def sender? : JobReport → Option Nat
  | .progressed id _ _ => some id
  | .finished id _ => some id
  | .lockTimedOut _ => none

def sentBy (id : Nat) (reports : List JobReport) : List JobReport :=
  reports.filter fun r => r.sender? = some id

theorem sentBy_append (id : Nat) (reports more : List JobReport) :
    sentBy id (reports ++ more) = sentBy id reports ++ sentBy id more := List.filter_append ..

theorem mem_sentBy {r : JobReport} {id : Nat} {reports : List JobReport} :
    r ∈ sentBy id reports ↔ r ∈ reports ∧ r.sender? = some id := by
  simp [sentBy]

end JobReport

namespace Workshop

variable {β : Type} {w w' : Workshop β} {id now : Nat}

/-- What can happen to a workshop at one moment. -/
inductive Act (β : Type) where
  | submit (now : Nat) (job : NewJob β)
  | abort (now id : Nat)
  | stop (now : Nat)
  | handle (now : Nat) (before : List JobReport) (r : JobReport) (after : List JobReport)
  | progress (id percent : Nat) (description : Option String)
  | endBody (id : Nat) (outcome : Except CallError Json)
  | timer (id : Nat)

namespace Act

def sent? : Act β → Option JobReport
  | .progress id percent description => some (.progressed id percent description)
  | .endBody id outcome => some (.finished id outcome)
  | .timer id => some (.lockTimedOut id)
  | _ => none

def heard? : Act β → Option JobReport
  | .handle _ _ r _ => some r
  | _ => none

def stops : Act β → Bool
  | .stop _ => true
  | _ => false

def onTable : Act β → JobTable β → JobTable β
  | .submit now job, t => (t.submit now job).1
  | .abort now id, t => (t.abort now id).1
  | .stop now, t => (t.stopAll now).1
  | .handle now _ r _, t => t.report now r
  | _, t => t

end Act

def does (w : Workshop β) : Act β → Workshop β
  | .submit now job => w.submit now job
  | .abort now id => w.abort now id
  | .stop now => w.adopt (w.table.stopAll now).1
  | .handle now before r after => w.handle now r (before ++ after)
  | .progress id percent description => w.send (.progressed id percent description)
  | .endBody id outcome => w.endBody id outcome
  | .timer id => w.send (.lockTimedOut id)

/-- Only a report on its way can be handled, and only a body at work can end. -/
def Can (w : Workshop β) : Act β → Prop
  | .handle _ before r after => w.mail = before ++ r :: after
  | .endBody id _ => id ∈ w.atWork
  | _ => True

theorem Act.eq_handle {a : Act β} {r : JobReport} (h : a.heard? = some r) :
    ∃ now before after, a = .handle now before r after := by
  cases a <;> cases h
  exact ⟨_, _, _, rfl⟩

theorem Can.mem_mail {a : Act β} {r : JobReport} (h : w.Can a) (hheard : a.heard? = some r) :
    r ∈ w.mail := by
  obtain ⟨now, before, after, rfl⟩ := Act.eq_handle hheard
  have hmail : w.mail = before ++ r :: after := h
  rw [hmail]
  exact List.mem_append_right _ List.mem_cons_self

section Sent

variable {a : Act β} (h : a.sent?.isSome = true)
include h

theorem onTable_sent (t : JobTable β) : a.onTable t = t := by
  cases a <;> first | rfl | cases h

theorem table_sent : (w.does a).table = w.table := by
  cases a <;> first | rfl | cases h

theorem heard?_sent : a.heard? = none := by
  cases a <;> first | rfl | cases h

theorem stops_sent : a.stops = false := by
  cases a <;> first | rfl | cases h

end Sent

theorem does_mail {a : Act β} (h : a.heard? = none) :
    (w.does a).mail = w.mail ++ a.sent?.toList := by
  cases a with
  | handle => cases h
  | submit | abort | stop => exact (List.append_nil _).symm
  | progress | endBody | timer => rfl

theorem does_table (a : Act β) (h : w.table.effects = []) :
    (w.does a).table = { a.onTable w.table with effects := [] } := by
  have hsame : w.table = { w.table with effects := [] } := by
    rw [← h]
  cases a with
  | submit | abort | stop | handle => rfl
  | progress | endBody | timer => exact hsame

theorem adopt_wants {t : JobTable β} {wanted : List (JobEffect β)} (hsettled : t.effects = [])
    (hnone : wanted.filterMap JobEffect.started? = []) :
    w.adopt (t.wants wanted) = { w with table := t } := by
  have hstarts : (t.wants wanted).starts = [] := by
    rw [JobTable.starts_wants, hnone, JobTable.starts, hsettled]
    rfl
  have hsame : { t.wants wanted with effects := [] } = t := by
    rw [← hsettled]
    rfl
  unfold adopt
  rw [hstarts, hsame, List.map_nil, List.append_nil, List.append_nil]

theorem adopt_self (h : w.table.effects = []) : w.adopt w.table = w := by
  have hsame : w.table.wants [] = w.table := by
    unfold JobTable.wants
    rw [List.append_nil]
  have hadopted : w.adopt (w.table.wants []) = w := adopt_wants h rfl
  rwa [hsame] at hadopted

theorem Sound.does {a : Act β} (h : w.Sound) (hcan : w.Can a) (hgo : a.stops = false) :
    (w.does a).Sound := by
  cases a with
  | submit now job => exact (h.submit now job).1
  | abort now id => exact (h.abort now id).1
  | stop => cases hgo
  | handle now before r after => exact (h.handle hcan now).1
  | progress id percent description => exact h.send rfl
  | endBody id outcome => exact h.endBody outcome hcan
  | timer id => exact h.send rfl

/-- Only running jobs owe a report of their end, and each owes one. This is left of the order of a
workshop when its jobs were stopped. -/
structure Accounted (w : Workshop β) : Prop where
  settled : w.table.effects = []
  runs : ∀ id ∈ w.owed, ∃ held, w.table.Has .running held id
  once : w.owed.Nodup

theorem Sound.accounted (h : w.Sound) : w.Accounted :=
  ⟨h.settled, fun id hid => ((h.owes.running id).mp hid).1, h.owes.nodup⟩

theorem Accounted.owes_nothing (h : w.Accounted)
    (hjob : ∀ e, w.table.job? id = some e → e.state ≠ .running) : id ∉ w.owed := by
  intro hid
  obtain ⟨held, e, he, hrun, -⟩ := h.runs id hid
  exact hjob e he hrun

theorem mem_owed_of_mail {r : JobReport} (hr : r ∈ w.mail) (hend : r.finished? = some id) :
    id ∈ w.owed := List.mem_append_right _ (List.mem_filterMap.mpr ⟨r, hr, hend⟩)

theorem Accounted.not_finished (h : w.Accounted) (hid : id ∈ w.atWork) {r : JobReport}
    (hr : r ∈ w.mail) : r.finished? ≠ some id := by
  intro hend
  have hmem : id ∈ w.mail.filterMap JobReport.finished? := List.mem_filterMap.mpr ⟨r, hr, hend⟩
  have hapart := (List.nodup_append.mp h.once).2.2
  exact hapart id hid id hmem rfl

theorem Sound.accounted_stop (h : w.Sound) (now : Nat) : (w.does (.stop now)).Accounted := by
  have hdown := h.table.shutsDown h.settled now
  have howed : (w.does (.stop now)).owed = w.owed := by
    change w.atWork ++ (w.table.stopAll now).1.starts.map Prod.fst ++ _ = w.owed
    rw [hdown.starts, List.map_nil, List.append_nil, owed]
    rfl
  refine ⟨rfl, fun id hid => ?_, howed ▸ h.owes.nodup⟩
  rw [howed] at hid
  obtain ⟨held, e, he, hrun, hlock⟩ := h.accounted.runs id hid
  have hasked : e.asked.state = .running := hrun
  have hstopped : e.stopped now = e.asked := by
    unfold JobEntry.stopped
    rw [hrun]
  have hkept : (w.table.stopAll now).1.job? id = some e.asked := by
    rw [hdown.jobs, he, Option.bind_some, hstopped, hasked]
    exact if_neg (by simp [JobState.isTerminal])
  exact ⟨held, e.asked, hkept, hasked, hlock⟩

theorem owed_sent {a : Act β} (hcan : w.Can a) (hsent : a.sent?.isSome = true) :
    (w.does a).owed.Perm w.owed := by
  cases a with
  | endBody id outcome => exact owed_endBody_perm outcome hcan
  | progress id percent description =>
    exact List.Perm.of_eq (owed_send (r := .progressed id percent description) rfl w)
  | timer id => exact List.Perm.of_eq (owed_send (r := .lockTimedOut id) rfl w)
  | submit | abort | stop | handle => cases hsent

theorem Accounted.sends {a : Act β} (h : w.Accounted) (hcan : w.Can a)
    (hsent : a.sent?.isSome = true) : (w.does a).Accounted := by
  have htable : (w.does a).table = w.table := table_sent hsent
  have howed := owed_sent hcan hsent
  refine ⟨?_, fun j hj => ?_, howed.nodup_iff.mpr h.once⟩
  · rw [htable]
    exact h.settled
  · rw [htable]
    exact h.runs j (howed.mem_iff.mp hj)

/-- What happens to a workshop, act by act, if each act is as the rule has it. The course is `going`
until the jobs are stopped: after that the bodies and the timers still send their reports, but the
table takes nothing more. -/
inductive Course (rule : Workshop β → Act β → Prop) (w : Workshop β) :
    Bool → List (Act β) → List (JobEffect β) → Workshop β → Prop where
  | start : Course rule w true [] [] w
  | next {going : Bool} {acts : List (Act β)} {effects : List (JobEffect β)} {w' : Workshop β}
      (h : Course rule w going acts effects w') (a : Act β) (hcan : w'.Can a) (hrule : rule w' a)
      (hopen : going = true ∨ a.sent?.isSome = true) :
      Course rule w (going && !a.stops) (acts ++ [a]) (effects ++ (a.onTable w'.table).effects)
        (w'.does a)

def sentIn (acts : List (Act β)) : List JobReport := acts.filterMap Act.sent?

def heardIn (acts : List (Act β)) : List JobReport := acts.filterMap Act.heard?

theorem sentIn_append (acts more : List (Act β)) :
    sentIn (acts ++ more) = sentIn acts ++ sentIn more := List.filterMap_append ..

theorem heardIn_append (acts more : List (Act β)) :
    heardIn (acts ++ more) = heardIn acts ++ heardIn more := List.filterMap_append ..

theorem sentIn_singleton (a : Act β) : sentIn [a] = a.sent?.toList := by
  cases h : a.sent? <;> simp [sentIn, h]

theorem heardIn_singleton (a : Act β) : heardIn [a] = a.heard?.toList := by
  cases h : a.heard? <;> simp [heardIn, h]

section Course

variable {rule : Workshop β → Act β → Prop} {going : Bool} {acts : List (Act β)}
  {effects : List (JobEffect β)}

theorem Course.accounted (h : Course rule w going acts effects w') (hw : w.Sound) :
    w'.Accounted ∧ (going = true → w'.Sound) := by
  induction h with
  | start => exact ⟨hw.accounted, fun _ => hw⟩
  | @next going _ _ w' _ a hcan _ hopen ih =>
    cases hstops : a.stops with
    | true =>
      obtain ⟨now, rfl⟩ : ∃ now, a = .stop now := by
        cases a <;> first | exact ⟨_, rfl⟩ | cases hstops
      have hgoing : going = true := hopen.resolve_right (by simp [Act.sent?])
      exact ⟨(ih.2 hgoing).accounted_stop now, fun hgo => by simp at hgo⟩
    | false =>
      have hsound : going = true → (w'.does a).Sound := fun hgo => (ih.2 hgo).does hcan hstops
      refine ⟨?_, fun hgo => hsound (by simpa using hgo)⟩
      rcases hopen with hgo | hsent
      · exact (hsound hgo).accounted
      · exact ih.1.sends hcan hsent

/-- What is sent changes nothing on the table, and nothing is wanted. -/
theorem Course.sends (h : Course rule w going acts effects w') (hw : w.Sound) {a : Act β}
    (hcan : w'.Can a) (hrule : rule w' a) (hsent : a.sent?.isSome = true) :
    Course rule w going (acts ++ [a]) effects (w'.does a) := by
  have hnext := h.next a hcan hrule (.inr hsent)
  have hsettled := (h.accounted hw).1.settled
  rwa [stops_sent hsent, onTable_sent hsent, hsettled, List.append_nil, Bool.not_false, Bool.and_true]
    at hnext

theorem Course.annals {maxRetained : Nat}
    (h : Course rule (opened maxRetained) going acts effects w) :
    Annals maxRetained going effects w := by
  have hopened : (opened maxRetained : Workshop β).Sound := sound_opened maxRetained
  induction h with
  | start => exact .opened
  | @next going _ effects w' h a hcan _ hopen ih =>
    have hgoing : a.sent? = none → going = true := by
      intro hnone
      rw [hnone] at hopen
      exact hopen.resolve_right (by simp)
    have hsettled := (h.accounted hopened).1.settled
    cases a with
    | submit now job =>
      obtain rfl := hgoing rfl
      exact ih.submit now job
    | abort now id =>
      obtain rfl := hgoing rfl
      exact ih.abort now id
    | stop now =>
      obtain rfl := hgoing rfl
      exact ih.stop now
    | handle now before r after =>
      obtain rfl := hgoing rfl
      exact ih.handle now before after r hcan
    | progress id percent description =>
      simp only [Act.onTable, Act.stops, hsettled, List.append_nil, Bool.not_false, Bool.and_true]
      exact ih.progress id percent description
    | endBody id outcome =>
      simp only [Act.onTable, Act.stops, hsettled, List.append_nil, Bool.not_false, Bool.and_true]
      exact ih.endBody id outcome hcan
    | timer id =>
      simp only [Act.onTable, Act.stops, hsettled, List.append_nil, Bool.not_false, Bool.and_true]
      exact ih.timer id

theorem annals_iff_course {maxRetained : Nat} : Annals maxRetained going effects w ↔
    ∃ acts, Course (fun _ _ => True) (opened maxRetained) going acts effects w := by
  have hopened : (opened maxRetained : Workshop β).Sound := sound_opened maxRetained
  constructor
  · intro h
    induction h with
    | opened => exact ⟨[], .start⟩
    | submit _ now job ih =>
      obtain ⟨acts, h⟩ := ih
      exact ⟨_, h.next (.submit now job) trivial trivial (.inl rfl)⟩
    | abort _ now id ih =>
      obtain ⟨acts, h⟩ := ih
      exact ⟨_, h.next (.abort now id) trivial trivial (.inl rfl)⟩
    | stop _ now ih =>
      obtain ⟨acts, h⟩ := ih
      exact ⟨_, h.next (.stop now) trivial trivial (.inl rfl)⟩
    | handle _ now before after r hmail ih =>
      obtain ⟨acts, h⟩ := ih
      exact ⟨_, h.next (.handle now before r after) hmail trivial (.inl rfl)⟩
    | progress _ id percent description ih =>
      obtain ⟨acts, h⟩ := ih
      exact ⟨_, h.sends hopened (a := .progress id percent description) trivial trivial rfl⟩
    | endBody _ id outcome hid ih =>
      obtain ⟨acts, h⟩ := ih
      exact ⟨_, h.sends hopened (a := .endBody id outcome) hid trivial rfl⟩
    | timer _ id ih =>
      obtain ⟨acts, h⟩ := ih
      exact ⟨_, h.sends hopened (a := .timer id) trivial trivial rfl⟩
  · rintro ⟨acts, h⟩
    exact h.annals

/-- Whatever was sent was handled or is in the mail. -/
theorem Course.mail_perm (h : Course rule w going acts effects w') :
    (w.mail ++ sentIn acts).Perm (heardIn acts ++ w'.mail) := by
  induction h with
  | start => simp [sentIn, heardIn]
  | @next _ acts _ w' _ a hcan _ _ ih =>
    rw [sentIn_append, heardIn_append, sentIn_singleton, heardIn_singleton, ← List.append_assoc]
    cases hheard : a.heard? with
    | none =>
      rw [does_mail hheard, Option.toList_none, List.append_nil, ← List.append_assoc]
      exact ih.append_right _
    | some r =>
      obtain ⟨now, before, after, rfl⟩ := Act.eq_handle hheard
      have hmail : w'.mail = before ++ r :: after := hcan
      have hout : (before ++ r :: after).Perm ([r] ++ (before ++ after)) := List.perm_middle
      have hall := ih.trans ((hmail ▸ hout).append_left (heardIn acts))
      simpa [Act.sent?, Workshop.does, Workshop.handle, adopt] using hall

/-- Nothing that the body of a job sent is handled before what it has sent before. -/
def InTurn (id : Nat) : Act β → Prop
  | .handle _ before r _ => r.sender? = some id → ∀ x ∈ before, x.sender? ≠ some id
  | _ => True

theorem Course.in_turn (h : Course rule w going acts effects w')
    (hrule : ∀ v a, rule v a → InTurn id a) :
    JobReport.sentBy id (w.mail ++ sentIn acts) =
      JobReport.sentBy id (heardIn acts ++ w'.mail) := by
  induction h with
  | start => simp [sentIn, heardIn]
  | @next _ acts _ w' _ a hcan hallowed _ ih =>
    have hturn := hrule w' a hallowed
    rw [sentIn_append, heardIn_append, sentIn_singleton, heardIn_singleton, ← List.append_assoc,
      JobReport.sentBy_append, ih]
    cases hheard : a.heard? with
    | none =>
      rw [does_mail hheard, Option.toList_none, List.append_nil, ← List.append_assoc,
        ← JobReport.sentBy_append]
    | some r =>
      obtain ⟨now, before, after, rfl⟩ := Act.eq_handle hheard
      have hmail : w'.mail = before ++ r :: after := hcan
      have hleft : (w'.does (.handle now before r after)).mail = before ++ after := rfl
      have hfirst : JobReport.sentBy id (before ++ r :: after) =
          JobReport.sentBy id (r :: (before ++ after)) := by
        by_cases hr : r.sender? = some id
        · have hnone : JobReport.sentBy id before = [] := by
            rw [JobReport.sentBy, List.filter_eq_nil_iff]
            intro x hx
            simpa using hturn hr x hx
          simp only [JobReport.sentBy, List.filter_append, List.filter_cons] at hnone ⊢
          rw [hnone, List.nil_append, List.nil_append]
        · simp [JobReport.sentBy, hr]
      have hnothing : (Act.handle now before r after : Act β).sent? = none := rfl
      rw [hleft, hmail, hnothing, Option.toList_none, Option.toList_some, JobReport.sentBy_append,
        hfirst, ← JobReport.sentBy_append]
      simp [JobReport.sentBy]

end Course

end Workshop

end Switchboard
