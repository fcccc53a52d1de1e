import Switchboard.Proofs.Jobs.Coherence
import Switchboard.Proofs.Jobs.Encounters
import Switchboard.Proofs.Jobs.Replica
import Switchboard.Proofs.Schema.Cleaning

namespace Switchboard

namespace Event

def percent? (e : Event) : Option Nat :=
  match (e.fields.get? "progress").bind fun progress => progress.get? "percent" with
  | some (.num (.int (.ofNat percent))) => some percent
  | _ => none

end Event

theorem JobProgress.get?_percent (p : JobProgress) :
    p.toJson.get? "percent" = some (.nat p.percent) := by
  simp [toJson, Json.ofFields, Json.get?, Fields.ofList, Fields.insertAll, Fields.get?_insert]

namespace JobSnapshot

theorem get?_progress (s : JobSnapshot) : s.toJson.get? "progress" = some s.progress.toJson := by
  simp [toJson, Json.ofFields, Json.get?, Fields.ofList, Fields.insertAll, Fields.get?_insert]

theorem percent?_event (s : JobSnapshot) (type : EventType) :
    (s.event type).percent? = some s.progress.percent := by
  have hpercent : ((s.event type).fields.get? "progress").bind (·.get? "percent") =
      some (.nat s.progress.percent) := by
    change (s.toJson.get? "progress").bind _ = _
    rw [get?_progress, Option.bind_some, JobProgress.get?_percent]
  unfold Event.percent?
  rw [hpercent]
  rfl

def NotAhead (s s' : JobSnapshot) : Prop := s.progress.percent ≤ s'.progress.percent

end JobSnapshot

def percentsOf (id : Nat) (events : List Event) : List (Option Nat) :=
  (events.filter fun e => e.jobId? = some id).map Event.percent?

theorem percentsOf_append (id : Nat) (events more : List Event) :
    percentsOf id (events ++ more) = percentsOf id events ++ percentsOf id more := by
  simp [percentsOf]

theorem percentsOf_tidings (id : Nat) (s : JobSnapshot) (type : EventType) :
    percentsOf id (s.tidings type) =
      if s.id = id ∧ s.transient = false then [some s.progress.percent] else [] := by
  have hid : (s.event type).jobId? = some s.id := rfl
  unfold percentsOf JobSnapshot.tidings
  cases s.transient with
  | true => simp
  | false =>
    by_cases heq : s.id = id <;> simp [hid, heq, s.percent?_event]

/-- The snapshots of a job that some events tell of. All of them are known, and none is ahead of a
later one. -/
structure Echo (id : Nat) (known : List JobSnapshot) (events : List Event)
    (told : List JobSnapshot) : Prop where
  percents : percentsOf id events = told.map fun s => some s.progress.percent
  climbs : told.Pairwise JobSnapshot.NotAhead
  known : ∀ s ∈ told, s ∈ known

namespace Echo

variable {id : Nat} {known known' told : List JobSnapshot} {events : List Event}

theorem nothing (id : Nat) (known : List JobSnapshot) : Echo id known [] [] :=
  ⟨rfl, List.Pairwise.nil, fun s hs => by cases hs⟩

theorem more (h : Echo id known events told) (hknown : ∀ s ∈ known, s ∈ known') (s : JobSnapshot)
    (type : EventType) (hs : s.id = id → s ∈ known' ∧ ∀ x ∈ known, x.NotAhead s) :
    ∃ told', Echo id known' (events ++ s.tidings type) told' := by
  by_cases htold : s.id = id ∧ s.transient = false
  · obtain ⟨hmem, hahead⟩ := hs htold.1
    refine ⟨told ++ [s], ?_, ?_, fun x hx => ?_⟩
    · rw [percentsOf_append, percentsOf_tidings, if_pos htold, h.percents, List.map_append]
      rfl
    · refine List.pairwise_append.mpr ⟨h.climbs, List.pairwise_singleton _ _, fun x hx y hy => ?_⟩
      rw [List.mem_singleton.mp hy]
      exact hahead x (h.known x hx)
    · rcases List.mem_append.mp hx with hx | hx
      · exact hknown x (h.known x hx)
      · rw [List.mem_singleton.mp hx]
        exact hmem
  · refine ⟨told, ?_, h.climbs, fun x hx => hknown x (h.known x hx)⟩
    rw [percentsOf_append, percentsOf_tidings, if_neg htold, List.append_nil, h.percents]

end Echo

/-- What is known of a job at last is the last that was shown. -/
theorem Fares.not_ahead {r r' : JobRoll} {id : Nat} {shown : List JobSnapshot} {s : JobSnapshot}
    (h : Fares r r' id shown) (hs : r'.job id = some s)
    (hclimbs : ((r.job id).toList ++ shown).Pairwise JobSnapshot.NotAhead) :
    s ∈ (r.job id).toList ++ shown ∧ ∀ x ∈ (r.job id).toList ++ shown, x.NotAhead s := by
  have hlast : ((r.job id).toList ++ shown).getLast? = some s := by
    rcases h.now with hnone | hlast
    · rw [hs] at hnone
      cases hnone
    · rw [← hlast, hs]
  obtain ⟨before, hsplit⟩ := List.getLast?_eq_some_iff.mp hlast
  rw [hsplit] at hclimbs ⊢
  have hahead := (List.pairwise_append.mp hclimbs).2.2
  refine ⟨List.mem_append_right _ List.mem_cons_self, fun x hx => ?_⟩
  rcases List.mem_append.mp hx with hx | hx
  · exact hahead x hx s List.mem_cons_self
  · rw [List.mem_singleton.mp hx]
    exact Nat.le_refl _

/-- If what is shown of a job never goes back, then neither do the events. -/
theorem Recounts.echo {β : Type} {r r' : JobRoll} {effects : List (JobEffect β)}
    (h : Recounts r effects r') (hr : r.Bounded) (id : Nat)
    (hclimbs : ((r.job id).toList ++ shownOf id effects).Pairwise JobSnapshot.NotAhead) :
    ∃ told, Echo id ((r.job id).toList ++ shownOf id effects) (eventsOf effects) told := by
  have hshown (s : JobSnapshot) {known : List JobSnapshot} (heq : s.id = id)
      (hclimbs : (known ++ if s.id = id then [s] else []).Pairwise JobSnapshot.NotAhead) :
      s ∈ (known ++ if s.id = id then [s] else []) ∧ ∀ x ∈ known, x.NotAhead s := by
    rw [if_pos heq] at hclimbs ⊢
    have hahead := (List.pairwise_append.mp hclimbs).2.2
    exact ⟨List.mem_append_right _ List.mem_cons_self,
      fun x hx => hahead x hx s List.mem_cons_self⟩
  induction h with
  | nothing => exact ⟨[], .nothing id _⟩
  | aside _ e he ih =>
    rw [shownOf_append, shownOf_aside id he, List.append_nil] at hclimbs ⊢
    rw [eventsOf_append, eventsOf_aside he, List.append_nil]
    exact ih hclimbs
  | entered _ s _ _ ih | changed _ _ s _ _ ih =>
    rw [shownOf_append, shownOf_reveal, ← List.append_assoc] at hclimbs ⊢
    rw [eventsOf_append, eventsOf_reveal, eventsOf_publish]
    obtain ⟨told, hecho⟩ := ih (List.pairwise_append.mp hclimbs).1
    exact hecho.more (fun x hx => List.mem_append_left _ hx) s _ fun heq => hshown s heq hclimbs
  | @removed r' effects h s hs ih =>
    have hquiet : shownOf id (effects ++ ((s.tidings .removed).map .publish ++
        [.conceal s.id])) = shownOf id effects := by
      rw [shownOf_append, shownOf_append, shownOf_publish, shownOf_conceal, List.append_nil,
        List.append_nil]
    rw [hquiet] at hclimbs ⊢
    rw [eventsOf_append, eventsOf_append, eventsOf_publish, eventsOf_conceal, List.append_nil]
    obtain ⟨told, hecho⟩ := ih hclimbs
    refine hecho.more (fun x hx => hx) s _ fun heq => ?_
    exact (h.fares hr id).not_ahead (heq ▸ hs) hclimbs
  | absent _ other _ _ ih =>
    rw [shownOf_append, shownOf_conceal, List.append_nil] at hclimbs ⊢
    rw [eventsOf_append, eventsOf_conceal, List.append_nil]
    exact ih hclimbs

namespace Workshop

variable {β : Type} {w : Workshop β} {a : Act β} {maxRetained id : Nat} {going : Bool}
  {acts : List (Act β)} {effects : List (JobEffect β)} {rule : Workshop β → Act β → Prop}
  {shown more : List JobSnapshot} {entry entry' : Option (JobEntry β)}

theorem Meets.not_ahead {held : Option String} {e e' : JobEntry β} (h : Meets a held e more e')
    (hfew : e.snapshot.progress.percent ≤ 100) : e.snapshot.NotAhead e'.snapshot := by
  cases h with
  | spared | asked | begins | dismissed => exact Nat.le_refl _
  | reports percent description => exact Nat.le_max_left _ _
  | settled now outcome =>
    unfold JobSnapshot.NotAhead JobEntry.settled
    cases JobTable.settled e.cancelled outcome with
    | ok v => exact hfew
    | error error => exact Nat.le_refl _

/-- What was shown of a job never goes back, and is not ahead of the job as it is. -/
structure Climbs (shown : List JobSnapshot) (entry : Option (JobEntry β)) : Prop where
  ordered : shown.Pairwise JobSnapshot.NotAhead
  now : ∀ e, entry = some e → ∀ s ∈ shown, s.NotAhead e.snapshot

theorem Climbs.meets {held : Option String} {e e' : JobEntry β} (h : Climbs shown (some e))
    (hfew : e.snapshot.progress.percent ≤ 100) (hmeets : Meets a held e more e') :
    Climbs (shown ++ more) (some e') := by
  have hup := hmeets.not_ahead hfew
  have hbefore : ∀ s ∈ shown, s.NotAhead e'.snapshot := by
    intro s hs
    exact Nat.le_trans (h.now e rfl s hs) hup
  have hall : ∀ s ∈ shown ++ more, s.NotAhead e'.snapshot := by
    refine List.forall_mem_append.mpr ⟨hbefore, fun s hs => ?_⟩
    rw [hmeets.mem_shown hs]
    exact Nat.le_refl _
  refine ⟨List.pairwise_append.mpr ⟨h.ordered, ?_, fun s hs x hx => ?_⟩, fun x hx => ?_⟩
  · rcases hmeets.shown_is with rfl | rfl
    · exact List.Pairwise.nil
    · exact List.pairwise_singleton _ _
  · rw [hmeets.mem_shown hx]
    exact hbefore s hs
  · rw [← Option.some.inj hx]
    exact hall

theorem Climbs.fate (h : Climbs shown entry) (hfate : Fate w a id entry more entry')
    (hfew : ∀ e, entry = some e → e.snapshot.progress.percent ≤ 100)
    (hnew : id = w.table.nextId → shown = []) : Climbs (shown ++ more) entry' := by
  cases hfate with
  | met hmeets => exact h.meets (hfew _ rfl) hmeets
  | forgotten hmeets => exact ⟨(h.meets (hfew _ rfl) hmeets).ordered, fun e he => by cases he⟩
  | absent =>
    rw [List.append_nil]
    exact ⟨h.ordered, fun e he => by cases he⟩
  | waits now job hid | starts now job hid =>
    rw [hnew hid, List.nil_append]
    refine ⟨by simp [JobSnapshot.NotAhead, JobTable.fresh, JobEntry.begun], fun e he s hs => ?_⟩
    have hzero : s.progress.percent = 0 := by
      simp only [List.mem_cons, List.not_mem_nil, or_false] at hs
      rcases hs with rfl | rfl <;> rfl
    rw [JobSnapshot.NotAhead, hzero]
    exact Nat.zero_le _

theorem Course.unseen (h : Course rule (opened maxRetained) going acts effects w)
    (hid : w.table.nextId ≤ id) : shownOf id effects = [] := by
  have hempty : (opened maxRetained : Workshop β).Sound := sound_opened maxRetained
  exact ((h.recounts hempty).fares hempty.table.numbered.bounded id).later hid

theorem Course.climbs (h : Course rule (opened maxRetained) going acts effects w) (id : Nat) :
    Climbs (shownOf id effects) (w.table.job? id) := by
  have hempty : (opened maxRetained : Workshop β).Sound := sound_opened maxRetained
  induction h with
  | start => exact ⟨List.Pairwise.nil, fun e he => by cases he⟩
  | next h a hcan _ hopen ih =>
    rw [shownOf_append]
    refine ih.fate (h.fate hempty hcan hopen id) (fun e he => ?_) fun hid => ?_
    · exact (h.annals.candid.entries id e he).1.percent
    · exact h.unseen (Nat.le_of_eq hid.symm)

/-- The percents that the events tell of a job never decrease. -/
theorem Course.percents (h : Course rule (opened maxRetained) going acts effects w) (id : Nat) :
    ∃ percents : List Nat, percentsOf id (eventsOf effects) = percents.map some ∧
      percents.Pairwise (· ≤ ·) := by
  have hempty : (opened maxRetained : Workshop β).Sound := sound_opened maxRetained
  obtain ⟨told, hecho⟩ :=
    (h.recounts hempty).echo hempty.table.numbered.bounded id (h.climbs id).ordered
  refine ⟨told.map fun s => s.progress.percent, ?_, List.pairwise_map.mpr hecho.climbs⟩
  rw [hecho.percents, List.map_map]
  rfl

end Workshop

end Switchboard
