import Switchboard.Proofs.Jobs.Percents

namespace Switchboard

namespace JobProgress

/-- What reports come to: the highest percent, but no more than a hundred, and the last
description. -/
def after (reports : List (Nat × Option String)) : JobProgress where
  percent := (reports.map fun r => min r.1 100).foldl max 0
  description := (reports.filterMap Prod.snd).getLast?

theorem report_after (reports : List (Nat × Option String)) (percent : Nat)
    (description : Option String) :
    (after reports).report percent description = after (reports ++ [(percent, description)]) := by
  have hpercent : max (after reports).percent (min percent 100) =
      (after (reports ++ [(percent, description)])).percent := by
    simp [after, List.foldl_append]
  have hdescription : description.or (after reports).description =
      (after (reports ++ [(percent, description)])).description := by
    cases description <;> simp [after, List.filterMap_append, List.getLast?_append]
  rw [report, hpercent, hdescription]

end JobProgress

namespace JobReport

def progress? (id : Nat) : JobReport → Option (Nat × Option String)
  | .progressed j percent description => if j = id then some (percent, description) else none
  | _ => none

/-- The progress of a job that some reports tell of. -/
def progressOf (id : Nat) (reports : List JobReport) : List (Nat × Option String) :=
  reports.filterMap (progress? id)

variable {id : Nat} {r : JobReport} {reports more : List JobReport}

theorem progressOf_append (id : Nat) (reports more : List JobReport) :
    progressOf id (reports ++ more) = progressOf id reports ++ progressOf id more :=
  List.filterMap_append

theorem finished?_eq_none (hsender : r.sender? = some id) (h : r.finished? ≠ some id) :
    r.finished? = none := by
  cases r with
  | finished => exact absurd hsender h
  | progressed | lockTimedOut => rfl

theorem progress?_of_sender (h : r.sender? ≠ some id) : r.progress? id = none := by
  cases r with
  | progressed j => exact if_neg fun heq => h (congrArg some heq)
  | finished | lockTimedOut => rfl

theorem progressOf_other (h : ∀ r ∈ reports, r.sender? ≠ some id) : progressOf id reports = [] :=
  List.filterMap_eq_nil_iff.mpr fun r hr => progress?_of_sender (h r hr)

theorem progressOf_sentBy (id : Nat) (reports : List JobReport) :
    progressOf id (sentBy id reports) = progressOf id reports := by
  unfold progressOf sentBy
  rw [List.filterMap_filter]
  apply List.filterMap_congr
  intro r _
  split
  next => rfl
  next hne => exact (progress?_of_sender (by simpa using hne)).symm

end JobReport

/-- A job that has ended has come to what was reported, or to the full percent if it succeeded. -/
def JobSnapshot.SumsUp (reports : List (Nat × Option String)) (s : JobSnapshot) : Prop :=
  s.progress.percent = (if s.state = .success then 100 else (JobProgress.after reports).percent) ∧
    s.progress.description = (JobProgress.after reports).description

namespace JobEntry

variable {β : Type} {e e' : JobEntry β} {reports : List (Nat × Option String)}

theorem sumsUp_settled (h : e.snapshot.progress = .after reports) (now : Nat)
    (outcome : Except CallError Json) : (e.settled now outcome).snapshot.SumsUp reports := by
  unfold JobSnapshot.SumsUp settled
  cases JobTable.settled e.cancelled outcome with
  | ok v => exact ⟨rfl, by rw [← h]; rfl⟩
  | error error =>
    have hfailed : JobTable.endState (.error error) ≠ .success := by
      cases error <;> exact nofun
    have hsame : e.snapshot.progress.percent = (JobProgress.after reports).percent := by rw [h]
    exact ⟨hsame.trans (if_neg hfailed).symm, by rw [← h]; rfl⟩

theorem Ends.unsuccessful (h : e.Ends e') (hwait : e.state = .waiting) : e'.state ≠ .success := by
  cases h with
  | settled _ _ hrun =>
    rw [hwait] at hrun
    cases hrun
  | dismissed | timedOut => exact nofun

theorem sumsUp_dismissed {now : Nat} {state : JobState} {error : CallError}
    (hnone : e.snapshot.progress = {}) (hwait : e.state = .waiting)
    (hends : e.Ends (e.dismissed now state error)) :
    (e.dismissed now state error).snapshot.SumsUp [] := by
  have hprogress : (e.dismissed now state error).snapshot.progress = {} := hnone
  have hfailed : (e.dismissed now state error).snapshot.state ≠ .success :=
    hends.unsuccessful hwait
  unfold JobSnapshot.SumsUp
  rw [hprogress, if_neg hfailed]
  exact ⟨rfl, rfl⟩

end JobEntry

namespace JobTable

variable {β : Type} {t : JobTable β} {id percent : Nat} {description : Option String}
  {e : JobEntry β}

theorem progress_unheard (h : ∀ e, t.job? id = some e → e.state ≠ .running) :
    t.progress id percent description = t := by
  cases he : t.job? id with
  | none => simp only [progress, snapshot?, he, Option.map_none]
  | some e =>
    rw [progress_eq percent description he]
    exact if_neg fun hp => h e he hp.1

theorem progress_told (he : t.job? id = some e) (hsettled : t.effects = [])
    (htransient : e.snapshot.transient = false) :
    ∃ e', (t.progress id percent description).job? id = some e' ∧
      eventsOf (t.progress id percent description).effects =
        if e'.snapshot.progress = e.snapshot.progress then [] else [e'.snapshot.event .changed] := by
  have hid : e.snapshot.id = id := job?_id he
  rw [progress_eq percent description he]
  split
  next hp =>
    let s := (e.reported percent description).snapshot
    have hchanged := sameBut_change (s := s) he hid
    have htold : s.tidings .changed = [s.event .changed] := by
      unfold JobSnapshot.tidings
      exact if_neg fun ht => by cases ht.symm.trans htransient
    refine ⟨_, (hchanged.job? id).trans (if_pos rfl), ?_⟩
    rw [effects_change (s := s) he hid, hsettled, List.nil_append, eventsOf_reveal,
      eventsOf_publish, htold]
    exact (if_neg hp.2).symm
  next =>
    refine ⟨e, he, ?_⟩
    rw [hsettled, if_pos rfl]
    rfl

end JobTable

namespace Workshop

open JobReport

variable {β : Type} {w w' : Workshop β} {a : Act β} {maxRetained id now : Nat} {going : Bool}
  {acts : List (Act β)} {effects : List (JobEffect β)} {rule : Workshop β → Act β → Prop}

/-- The body of a job reports its progress while it is at work, and whatever it sends is handled in
turn. -/
def Faithful (id : Nat) (w : Workshop β) (a : Act β) : Prop :=
  InTurn id a ∧ ∀ percent description, a = .progress id percent description → id ∈ w.atWork

theorem Faithful.at_work {r : JobReport} (h : Faithful id w a) (hcan : w.Can a)
    (hsent : a.sent? = some r) (hsender : r.sender? = some id) : id ∈ w.atWork := by
  cases a with
  | submit | abort | stop | handle => cases hsent
  | progress j percent description =>
    cases hsent
    obtain rfl : j = id := Option.some.inj hsender
    exact h.2 percent description rfl
  | endBody j outcome =>
    cases hsent
    obtain rfl : j = id := Option.some.inj hsender
    exact hcan
  | timer j =>
    cases hsent
    cases hsender

/-- The end of a body is the last that it sends. -/
theorem Course.end_last (h : Course (Faithful id) (opened maxRetained) going acts effects w) :
    (sentBy id w.mail).Pairwise fun r _ => r.finished? = none := by
  have hempty : (opened maxRetained : Workshop β).Sound := sound_opened maxRetained
  induction h with
  | start => exact List.Pairwise.nil
  | @next _ _ _ w' h a hcan hrule _ ih =>
    cases hheard : a.heard? with
    | some r =>
      obtain ⟨now, before, after, rfl⟩ := Act.eq_handle hheard
      have hmail : w'.mail = before ++ r :: after := hcan
      rw [hmail] at ih
      have hless : (before ++ after).Sublist (before ++ r :: after) :=
        (List.sublist_cons_self r after).append_left before
      exact ih.sublist (hless.filter _)
    | none =>
      rw [does_mail hheard, sentBy_append]
      refine List.pairwise_append.mpr ⟨ih, ?_, fun x hx y hy => ?_⟩
      · apply List.Pairwise.sublist List.filter_sublist
        cases a.sent? <;> simp
      · obtain ⟨hy, hsender⟩ := mem_sentBy.mp hy
        have hwork := hrule.at_work hcan (Option.mem_toList.mp hy) hsender
        obtain ⟨hx, hxsender⟩ := mem_sentBy.mp hx
        have hopen := (h.accounted hempty).1.not_finished hwork hx
        exact finished?_eq_none hxsender hopen

theorem Course.nothing_left (h : Course (Faithful id) (opened maxRetained) going acts effects w)
    {outcome : Except CallError Json} (hcan : w.Can a) (hrule : Faithful id w a)
    (hheard : a.heard? = some (.finished id outcome)) : sentBy id (w.does a).mail = [] := by
  obtain ⟨now, before, after, rfl⟩ := Act.eq_handle hheard
  cases hheard
  have hmail : w.mail = before ++ .finished id outcome :: after := hcan
  have hlast := h.end_last
  have hbefore : sentBy id before = [] := by
    apply List.filter_eq_nil_iff.mpr
    intro x hx
    simpa using hrule.1 rfl x hx
  have hthis : sentBy id (.finished id outcome :: after) =
      .finished id outcome :: sentBy id after := List.filter_cons_of_pos (decide_eq_true rfl)
  rw [hmail, sentBy_append, hbefore, List.nil_append, hthis] at hlast
  have hafter : sentBy id after = [] := by
    apply List.eq_nil_iff_forall_not_mem.mpr
    intro x hx
    cases (List.pairwise_cons.mp hlast).1 x hx
  change sentBy id (before ++ after) = []
  rw [sentBy_append, hbefore, hafter, List.append_nil]

theorem Course.heard_first (h : Course (Faithful id) (opened maxRetained) going acts effects w) :
    progressOf id (sentIn acts) = progressOf id (heardIn acts) ++ progressOf id w.mail := by
  have hturn := h.in_turn fun v a hrule => hrule.1
  have hempty : (opened maxRetained : Workshop β).mail = [] := rfl
  rw [hempty, List.nil_append] at hturn
  rw [← progressOf_sentBy, hturn, progressOf_sentBy, progressOf_append]

/-- How far a job has come, from what its body has `sent` and what the table has `heard` of that. -/
inductive Standing (heard sent : List (Nat × Option String)) (shown : List JobSnapshot) :
    Option (JobEntry β) → Prop where
  | idle {entry : Option (JobEntry β)} (hsent : sent = [])
      (hopen : ∀ s ∈ shown, s.state.isTerminal = false)
      (hentry : ∀ e, entry = some e → e.state = .waiting ∧ e.snapshot.progress = {}) :
      Standing heard sent shown entry
  | working {e : JobEntry β} (hrun : e.state = .running)
      (hopen : ∀ s ∈ shown, s.state.isTerminal = false)
      (hprogress : e.snapshot.progress = .after heard) : Standing heard sent shown (some e)
  | ended {entry : Option (JobEntry β)} (hsome : shown ≠ [])
      (hshown : ∀ s ∈ shown, s.state.isTerminal = true → s.SumsUp sent)
      (hentry : ∀ e, entry = some e → e.state.isTerminal = true ∧ e.snapshot.SumsUp sent) :
      Standing heard sent shown entry

section Step

variable {heard sent heard' sent' : List (Nat × Option String)} {shown more : List JobSnapshot}
  {entry entry' : Option (JobEntry β)}

theorem Standing.forgotten {e : JobEntry β} (h : Standing heard sent shown (some e))
    (hend : e.state.isTerminal = true) :
    Standing heard sent shown (none : Option (JobEntry β)) := by
  cases h with
  | idle _ _ hentry =>
    rw [(hentry e rfl).1] at hend
    cases hend
  | working hrun =>
    rw [hrun] at hend
    cases hend
  | ended hsome hshown => exact .ended hsome hshown fun x hx => by cases hx

theorem Standing.progress_eq {e : JobEntry β} (h : Standing heard sent shown (some e))
    (hrun : e.state = .running) : e.snapshot.progress = .after heard := by
  cases h with
  | idle _ _ hentry =>
    rw [(hentry e rfl).1] at hrun
    cases hrun
  | working _ _ hprogress => exact hprogress
  | ended _ _ hentry =>
    have hend := (hentry e rfl).1
    rw [hrun] at hend
    cases hend

theorem Standing.sumsUp {s : JobSnapshot} (h : Standing heard sent shown entry)
    (hs : s ∈ shown ∨ ∃ e, entry = some e ∧ e.snapshot = s) (hend : s.state.isTerminal = true) :
    s.SumsUp sent := by
  have hdone : ∀ state : JobState, s.state = state → state.isTerminal = true := by
    rintro state rfl
    exact hend
  cases h with
  | idle _ hopen hentry =>
    rcases hs with hs | ⟨e, he, rfl⟩
    · cases (hopen s hs).symm.trans hend
    · cases hdone _ (hentry e he).1
  | working hrun hopen =>
    rcases hs with hs | ⟨e, he, rfl⟩
    · cases (hopen s hs).symm.trans hend
    · cases he
      cases hdone _ hrun
  | ended _ hshown hentry =>
    rcases hs with hs | ⟨e, he, rfl⟩
    · exact hshown s hs hend
    · exact (hentry e he).2

/-- What an act makes of a job, and of what is known of its reports. -/
structure Hears (id : Nat) (a : Act β) (entry : Option (JobEntry β))
    (heard sent heard' sent' : List (Nat × Option String)) : Prop where
  heard : heard' = heard ++ progressOf id a.heard?.toList
  sent : sent' = sent ++ progressOf id a.sent?.toList
  first : ∃ mail, sent' = heard' ++ mail
  speaks : progressOf id a.sent?.toList ≠ [] → ∃ e, entry = some e ∧ e.state = .running
  all : ∀ outcome, a.heard? = some (.finished id outcome) → sent' = heard'

theorem Hears.calm (h : Hears id a entry heard sent heard' sent')
    (hentry : ∀ e, entry = some e → e.state ≠ .running) : sent' = sent := by
  have hnothing : progressOf id a.sent?.toList = [] := by
    by_contra hsome
    obtain ⟨e, he, hrun⟩ := h.speaks hsome
    exact hentry e he hrun
  rw [h.sent, hnothing, List.append_nil]

theorem Standing.meets_idle {held : Option String} {e e' : JobEntry β} (hwait : e.state = .waiting)
    (hnone : e.snapshot.progress = {}) (hopen : ∀ s ∈ shown, s.state.isTerminal = false)
    (hsent : sent' = []) (hheard : heard' = []) (hmeets : Meets a held e more e') :
    Standing heard' sent' (shown ++ more) (some e') := by
  have hstill := hmeets.still_open hopen
  have hends := hmeets.first_end (P := (·.SumsUp sent')) hopen
  cases hmeets with
  | spared =>
    have hkept : e.state.isTerminal = false := by
      rw [hwait]
      rfl
    exact .idle hsent (hstill hkept) fun x hx => Option.some.inj hx ▸ ⟨hwait, hnone⟩
  | begins now => exact .working rfl (hstill rfl) (hheard ▸ hnone)
  | reports _ _ hrun | asked hrun | settled _ _ hrun =>
    rw [hwait] at hrun
    cases hrun
  | dismissed now state error _ hend =>
    have hsums := JobEntry.sumsUp_dismissed hnone hwait hend
    rw [← hsent] at hsums
    refine .ended (by simp) (hends hsums) fun x hx => ?_
    rw [← Option.some.inj hx]
    exact ⟨hend.terminal, hsums⟩

theorem Standing.meets_working {held : Option String} {e e' : JobEntry β}
    (hid : e.id = id) (hrun : e.state = .running) (hprogress : e.snapshot.progress = .after heard)
    (hopen : ∀ s ∈ shown, s.state.isTerminal = false)
    (h : Hears id a (some e) heard sent heard' sent') (hmeets : Meets a held e more e') :
    Standing heard' sent' (shown ++ more) (some e') := by
  subst hid
  have hstill := hmeets.still_open hopen
  have hends := hmeets.first_end (P := (·.SumsUp sent')) hopen
  cases hmeets with
  | spared hspared =>
    have hnothing : progressOf e.id a.heard?.toList = [] :=
      progressOf_other fun r hr => hspared hrun r (Option.mem_toList.mp hr)
    refine .working hrun (hstill (JobEntry.unfinished_of_running hrun)) ?_
    rw [h.heard, hnothing, List.append_nil, hprogress]
  | begins _ hwait | dismissed _ _ _ hwait =>
    rw [hrun] at hwait
    cases hwait
  | reports percent description _ hheard =>
    have hthis : progressOf e.id a.heard?.toList = [(percent, description)] := by
      rw [hheard]
      exact List.filterMap_cons_some (if_pos rfl)
    have hmore : (e.reported percent description).snapshot.progress = .after heard' := by
      rw [h.heard, hthis, ← JobProgress.report_after, ← hprogress]
      rfl
    exact .working hrun (hstill (JobEntry.unfinished_of_running hrun)) hmore
  | asked _ hquiet =>
    have hsame : heard' = heard := by
      rw [h.heard, hquiet]
      exact List.append_nil _
    exact .working hrun (hstill (JobEntry.unfinished_of_running hrun)) (hsame ▸ hprogress)
  | settled now outcome _ hheard =>
    have hsame : heard' = heard := by
      rw [h.heard, hheard]
      exact List.append_nil _
    have hsums := JobEntry.sumsUp_settled hprogress now outcome
    rw [← hsame, ← h.all outcome hheard] at hsums
    refine .ended (by simp) (hends hsums) fun x hx => ?_
    rw [← Option.some.inj hx]
    exact ⟨JobTable.isTerminal_of_settled now outcome e, hsums⟩

theorem Standing.fate_idle (hsent : sent' = []) (hheard : heard' = [])
    (hopen : ∀ s ∈ shown, s.state.isTerminal = false)
    (hentry : ∀ e, entry = some e → e.state = .waiting ∧ e.snapshot.progress = {})
    (hnew : id = w.table.nextId → shown = []) (hfate : Fate w a id entry more entry') :
    Standing heard' sent' (shown ++ more) entry' := by
  cases hfate with
  | met hmeets =>
    obtain ⟨hwait, hnone⟩ := hentry _ rfl
    exact .meets_idle hwait hnone hopen hsent hheard hmeets
  | forgotten hmeets hend =>
    obtain ⟨hwait, hnone⟩ := hentry _ rfl
    exact (Standing.meets_idle hwait hnone hopen hsent hheard hmeets).forgotten hend
  | absent =>
    rw [List.append_nil]
    exact .idle hsent hopen hentry
  | waits now job heq =>
    rw [hnew heq]
    refine .idle hsent ?_ fun e he => Option.some.inj he ▸ ⟨rfl, rfl⟩
    simp [JobTable.fresh, JobState.isTerminal]
  | starts now job heq =>
    rw [hnew heq]
    refine .working rfl ?_ (hheard ▸ rfl)
    simp [JobTable.fresh, JobEntry.begun, JobState.isTerminal]

theorem Standing.fate (h : Standing heard sent shown entry)
    (hears : Hears id a entry heard sent heard' sent') (hid : ∀ e, entry = some e → e.id = id)
    (hnew : id = w.table.nextId → shown = []) (hfate : Fate w a id entry more entry') :
    Standing heard' sent' (shown ++ more) entry' := by
  cases h with
  | idle hsent hopen hentry =>
    have hcalm : sent' = [] := by
      refine (hears.calm fun e he hrun => ?_).trans hsent
      rw [(hentry e he).1] at hrun
      cases hrun
    have hheard : heard' = [] := by
      obtain ⟨mail, hfirst⟩ := hears.first
      rw [hcalm] at hfirst
      exact (List.append_eq_nil_iff.mp hfirst.symm).1
    exact .fate_idle hcalm hheard hopen hentry hnew hfate
  | working hrun hopen hprogress =>
    cases hfate with
    | met hmeets => exact .meets_working (hid _ rfl) hrun hprogress hopen hears hmeets
    | forgotten hmeets hend =>
      exact (Standing.meets_working (hid _ rfl) hrun hprogress hopen hears hmeets).forgotten hend
  | ended hsome hshown hentry =>
    have hcalm : sent' = sent := hears.calm fun e he hrun => by
      have hend := (hentry e he).1
      rw [hrun] at hend
      cases hend
    have hold : id ≠ w.table.nextId := fun heq => hsome (hnew heq)
    rw [hcalm]
    obtain ⟨rfl, hgone | rfl⟩ := hfate.of_ended (fun e he => (hentry e he).1) hold
    · rw [List.append_nil, hgone]
      exact .ended hsome hshown fun e he => by cases he
    · rw [List.append_nil]
      exact .ended hsome hshown hentry

end Step

theorem Course.hears (h : Course (Faithful id) (opened maxRetained) going acts effects w)
    (hcan : w.Can a) (hrule : Faithful id w a) (hopen : going = true ∨ a.sent?.isSome = true) :
    Hears id a (w.table.job? id) (progressOf id (heardIn acts)) (progressOf id (sentIn acts))
      (progressOf id (heardIn (acts ++ [a]))) (progressOf id (sentIn (acts ++ [a]))) := by
  have hempty : (opened maxRetained : Workshop β).Sound := sound_opened maxRetained
  have hfirst := (h.next a hcan hrule hopen).heard_first
  refine ⟨?_, ?_, ⟨_, hfirst⟩, fun hspeaks => ?_, fun outcome hheard => ?_⟩
  · rw [heardIn_append, heardIn_singleton, progressOf_append]
  · rw [sentIn_append, sentIn_singleton, progressOf_append]
  · obtain ⟨r, hr, hsender⟩ : ∃ r, a.sent? = some r ∧ r.sender? = some id := by
      by_contra hnobody
      refine hspeaks (progressOf_other fun r hr hsender => ?_)
      exact hnobody ⟨r, Option.mem_toList.mp hr, hsender⟩
    have hwork := hrule.at_work hcan hr hsender
    obtain ⟨held, e, he, hrun, -⟩ :=
      (h.accounted hempty).1.runs id (List.mem_append_left _ hwork)
    exact ⟨e, he, hrun⟩
  · have hnone : progressOf id (w.does a).mail = [] := by
      rw [← progressOf_sentBy, h.nothing_left hcan hrule hheard]
      rfl
    rwa [hnone, List.append_nil] at hfirst

theorem Course.standing (h : Course (Faithful id) (opened maxRetained) going acts effects w) :
    Standing (progressOf id (heardIn acts)) (progressOf id (sentIn acts)) (shownOf id effects)
      (w.table.job? id) := by
  have hempty : (opened maxRetained : Workshop β).Sound := sound_opened maxRetained
  induction h with
  | start => exact .idle rfl (fun s hs => by cases hs) fun e he => by cases he
  | @next going acts effects w h a hcan hrule hopen ih =>
    have hfate := h.fate hempty hcan hopen id
    rw [shownOf_append]
    refine ih.fate (h.hears hcan hrule hopen) (fun e he => JobTable.job?_id he) ?_ hfate
    intro heq
    exact h.unseen (Nat.le_of_eq heq.symm)

/-- What the progress of a job comes to. -/
structure Headway (id : Nat) (acts : List (Act β)) (effects : List (JobEffect β))
    (w : Workshop β) : Prop where
  running : ∀ e, w.table.job? id = some e → e.state = .running →
    e.snapshot.progress = .after (progressOf id (heardIn acts))
  ended : ∀ s, s ∈ shownOf id effects ∨ w.table.snapshot? id = some s → s.state.isTerminal = true →
    s.SumsUp (progressOf id (sentIn acts))
  unheard : (∀ e, w.table.job? id = some e → e.state ≠ .running) →
    ∀ now percent description, w.table.report now (.progressed id percent description) = w.table ∧
      ∀ others, w.handle now (.progressed id percent description) others = { w with mail := others }
  told : ∀ e, w.table.job? id = some e → e.snapshot.transient = false →
    ∀ now percent description,
      let t := w.table.report now (.progressed id percent description)
      ∃ e', t.job? id = some e' ∧ eventsOf t.effects =
        if e'.snapshot.progress = e.snapshot.progress then [] else [e'.snapshot.event .changed]
  percents : ∃ percents : List Nat, percentsOf id (eventsOf effects) = percents.map some ∧
    percents.Pairwise (· ≤ ·)

/-- In every run in which the body of a job reports its progress only while it is at work, and is
heard in turn, the job makes headway. -/
theorem progress_makes_headway
    (h : Course (Faithful id) (opened maxRetained) going acts effects w) :
    Headway id acts effects w := by
  have hempty : (opened maxRetained : Workshop β).Sound := sound_opened maxRetained
  have hstanding := h.standing
  have hsettled := (h.accounted hempty).1.settled
  refine ⟨fun e he hrun => ?_, fun s hs hend => ?_, fun hidle now percent description => ?_,
    fun e he htransient now percent description => JobTable.progress_told he hsettled htransient,
    h.percents id⟩
  · rw [he] at hstanding
    exact hstanding.progress_eq hrun
  · exact hstanding.sumsUp (hs.imp_right JobTable.job?_of_snapshot?) hend
  · have hsame : w.table.report now (.progressed id percent description) = w.table :=
      JobTable.progress_unheard hidle
    refine ⟨hsame, fun others => ?_⟩
    unfold Workshop.handle
    rw [hsame]
    exact adopt_self (w := { w with mail := others }) hsettled

/-- The body of a job gets halfway, and fails before the last of its reports is handled. -/
def halfway : List (Act Nat) :=
  [.submit 0 (lockedJob "L" 10), .progress 1 50 (some "half"),
    .handle 1 [] (.progressed 1 50 (some "half")) [], .progress 1 20 none,
    .endBody 1 (.error (.failed "e")),
    .handle 2 [] (.progressed 1 20 none) [.finished 1 (.error (.failed "e"))],
    .handle 3 [] (.finished 1 (.error (.failed "e"))) []]

theorem progress_makes_headway_halfway : ∃ effects, Headway 1 halfway effects
      (halfway.foldl does (opened 1)) ∧
    ∃ s, (halfway.foldl does (opened 1)).table.snapshot? 1 = some s ∧ s.state = .failed ∧
      s.SumsUp [(50, some "half"), (20, none)] := by
  have hother {a : Act Nat} {w : Workshop Nat} (hturn : InTurn 1 a)
      (hne : ∀ percent description, a ≠ .progress 1 percent description) : Faithful 1 w a :=
    ⟨hturn, fun percent description h => absurd h (hne percent description)⟩
  have hopened : Course (Faithful 1) (opened 1 : Workshop Nat) true [] [] (opened 1) := .start
  have hcome := hopened.next (.submit 0 (lockedJob "L" 10)) trivial (hother trivial nofun) (.inl rfl)
  have hhalf := (hcome.next (.progress 1 50 (some "half")) trivial ⟨trivial, fun _ _ _ => by decide⟩
    (.inl rfl)).next (.handle 1 [] (.progressed 1 50 (some "half")) []) rfl
    (hother (fun _ => nofun) nofun) (.inl rfl)
  have hfails := (hhalf.next (.progress 1 20 none) trivial ⟨trivial, fun _ _ _ => by decide⟩
    (.inl rfl)).next (.endBody 1 (.error (.failed "e"))) (show 1 ∈ _ by decide)
    (hother trivial nofun) (.inl rfl)
  have hheard := (hfails.next (.handle 2 [] (.progressed 1 20 none)
    [.finished 1 (.error (.failed "e"))]) rfl (hother (fun _ => nofun) nofun) (.inl rfl)).next
    (.handle 3 [] (.finished 1 (.error (.failed "e"))) []) rfl (hother (fun _ => nofun) nofun)
    (.inl rfl)
  have hheadway := progress_makes_headway (w := halfway.foldl does (opened 1)) hheard
  exact ⟨_, hheadway, _, rfl, rfl, hheadway.ended _ (.inr rfl) rfl⟩

end Workshop

end Switchboard
