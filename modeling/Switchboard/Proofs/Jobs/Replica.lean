import Switchboard.Proofs.Jobs.Roll

namespace Switchboard

namespace Event

def jobId? (e : Event) : Option Nat :=
  match e.id with
  | some (.num (.int (.ofNat id))) => some id
  | _ => none

/-- Stores what an event tells under its number, or deletes what was there. -/
def follow (replica : Nat → Option Json) (e : Event) : Nat → Option Json :=
  match e.jobId? with
  | none => replica
  | some id => fun j =>
    if j = id then
      match e.type with
      | .removed => none
      | .added | .changed => some e.fields
    else replica j

end Event

def replay (replica : Nat → Option Json) (events : List Event) : Nat → Option Json :=
  events.foldl Event.follow replica

theorem replay_append (replica : Nat → Option Json) (events more : List Event) :
    replay replica (events ++ more) = replay (replay replica events) more := List.foldl_append

/-- The serialized snapshots of the jobs that events tell of. -/
def JobRoll.published (r : JobRoll) (id : Nat) : Option Json :=
  ((r.job id).filter fun s => !s.transient).map JobSnapshot.toJson

theorem replay_tidings (replica : Nat → Option Json) (s : JobSnapshot) (type : EventType)
    (id : Nat) : replay replica (s.tidings type) id =
      if s.transient = false ∧ id = s.id then
        match type with
        | .removed => none
        | .added | .changed => some s.toJson
      else replica id := by
  cases ht : s.transient with
  | true => simp [JobSnapshot.tidings, ht, replay]
  | false =>
    simp only [JobSnapshot.tidings, ht, replay, Bool.false_eq_true, if_false, List.foldl_cons,
      List.foldl_nil, true_and]
    rfl

namespace Narrates

variable {r r' : JobRoll} {events : List Event} {id : Nat}

/-- Who follows the events has the serialized snapshots as they are. -/
theorem replay_eq (h : Narrates r events r') (hr : r.Bounded) :
    replay r.published events = r'.published := by
  induction h with
  | nothing => rfl
  | @entered r' _ h s hid _ ih =>
    funext j
    rw [replay_append, ih, replay_tidings]
    have hnew := (h.bounded hr).fresh (Nat.le_of_eq hid.symm)
    by_cases hj : j = s.id
    · cases ht : s.transient <;>
        simp [JobRoll.published, JobRoll.enter, JobRoll.write, hj, ht, hnew, Option.filter]
    · simp [JobRoll.published, JobRoll.enter, JobRoll.write, hj]
  | changed _ s s' hs hs' ih =>
    funext j
    rw [replay_append, ih, replay_tidings, hs'.transient, hs'.id]
    by_cases hj : j = s.id
    · cases ht : s.transient <;>
        simp [JobRoll.published, JobRoll.write, hj, ht, hs, hs'.transient, hs'.id, Option.filter]
    · simp [JobRoll.published, JobRoll.write, hj, hs'.id]
  | removed _ s hs ih =>
    funext j
    rw [replay_append, ih, replay_tidings]
    by_cases hj : j = s.id
    · cases ht : s.transient <;>
        simp [JobRoll.published, JobRoll.erase, hj, ht, hs, Option.filter]
    · simp [JobRoll.published, JobRoll.erase, hj]

theorem event_known (h : Narrates r events r') (hr : r.Bounded) :
    ∀ e ∈ events, ∃ (s : JobSnapshot) (type : EventType), e = s.event type ∧
      s.transient = false ∧ s.id < r'.next ∧ (type = .removed → r'.job s.id = none) := by
  induction h with
  | nothing => exact fun e he => by cases he
  | entered h s hid _ ih =>
    intro e he
    rcases List.mem_append.mp he with he | he
    · obtain ⟨x, type, rfl, ht, hlt, hgone⟩ := ih e he
      refine ⟨x, type, rfl, ht, Nat.lt_succ_of_lt hlt, fun htype => ?_⟩
      exact (if_neg (by omega)).trans (hgone htype)
    · obtain ⟨rfl, ht⟩ := JobSnapshot.mem_tidings he
      exact ⟨s, .added, rfl, ht, hid ▸ Nat.lt_succ_self _, fun htype => by cases htype⟩
  | changed h s s' hs hs' ih =>
    intro e he
    rcases List.mem_append.mp he with he | he
    · obtain ⟨x, type, rfl, ht, hlt, hgone⟩ := ih e he
      refine ⟨x, type, rfl, ht, hlt, fun htype => ?_⟩
      refine (if_neg fun heq => ?_).trans (hgone htype)
      rw [← hs'.id, ← heq, hgone htype] at hs
      cases hs
    · obtain ⟨rfl, ht⟩ := JobSnapshot.mem_tidings he
      have hlt := (h.bounded hr _ s hs).2
      exact ⟨s', .changed, rfl, ht, hs'.id.symm ▸ hlt, fun htype => by cases htype⟩
  | removed h s hs ih =>
    intro e he
    rcases List.mem_append.mp he with he | he
    · obtain ⟨x, type, rfl, ht, hlt, hgone⟩ := ih e he
      refine ⟨x, type, rfl, ht, hlt, fun htype => ?_⟩
      simp only [JobRoll.erase, hgone htype, ite_self]
    · obtain ⟨rfl, ht⟩ := JobSnapshot.mem_tidings he
      exact ⟨s, .removed, rfl, ht, (h.bounded hr _ s hs).2, fun _ => if_pos rfl⟩

/-- After its removal no event is about a job any more. -/
theorem removed_last (h : Narrates r events r') (hr : r.Bounded) :
    events.Pairwise fun e e' => e.type = .removed → e'.jobId? ≠ e.jobId? := by
  have hone : ∀ (s : JobSnapshot) (type : EventType),
      (s.tidings type).Pairwise fun e e' => e.type = .removed → e'.jobId? ≠ e.jobId? := by
    intro s type
    unfold JobSnapshot.tidings
    split <;> simp
  -- whatever is told next is told of a job that is there, or of one that is new
  have hnext : ∀ {r' : JobRoll} {events : List Event}, Narrates r events r' →
      ∀ {s : JobSnapshot} {type : EventType}, r'.next ≤ s.id ∨ r'.job s.id ≠ none →
      ∀ e ∈ events, ∀ e' ∈ s.tidings type, e.type = .removed → e'.jobId? ≠ e.jobId? := by
    intro r' events h s type hs e he e' he' htype heq
    obtain ⟨x, type', rfl, -, hlt, hgone⟩ := h.event_known hr e he
    obtain ⟨rfl, -⟩ := JobSnapshot.mem_tidings he'
    have hid : s.id = x.id := Option.some.inj heq
    rcases hs with hle | hjob
    · omega
    · exact hjob (hid ▸ hgone htype)
  induction h with
  | nothing => exact List.Pairwise.nil
  | entered h s hid _ ih =>
    exact List.pairwise_append.mpr ⟨ih, hone _ _, hnext h (.inl (Nat.le_of_eq hid.symm))⟩
  | changed h s s' hs hs' ih =>
    exact List.pairwise_append.mpr ⟨ih, hone _ _, hnext h (.inr (by rw [hs'.id, hs]; simp))⟩
  | removed h s hs ih =>
    exact List.pairwise_append.mpr ⟨ih, hone _ _, hnext h (.inr (by rw [hs]; simp))⟩

theorem silent_of_transient (h : Narrates r events r') (hr : r.Bounded) {s : JobSnapshot}
    (hs : r.job id = some s) (ht : s.transient = true) : ∀ e ∈ events, e.jobId? ≠ some id := by
  have hlt := (hr id s hs).2
  have hsame : ∀ {r' : JobRoll} {events : List Event}, Narrates r events r' →
      ∀ x, r'.job id = some x → x.transient = true := fun h =>
    h.lasts (P := fun x => x.transient = true) (fun _ _ hx hP => hx.transient.trans hP) hlt
      fun x hx => Option.some.inj (hs.symm.trans hx) ▸ ht
  have hnext : ∀ {x : JobSnapshot} {type : EventType}, (x.id = id → x.transient = true) →
      ∀ e ∈ x.tidings type, e.jobId? ≠ some id := by
    intro x type hx e he heq
    obtain ⟨rfl, hfalse⟩ := JobSnapshot.mem_tidings he
    rw [hx (Option.some.inj heq)] at hfalse
    cases hfalse
  have happend : ∀ {l l' : List Event}, (∀ e ∈ l, e.jobId? ≠ some id) →
      (∀ e ∈ l', e.jobId? ≠ some id) → ∀ e ∈ l ++ l', e.jobId? ≠ some id :=
    fun hl hl' e he => (List.mem_append.mp he).elim (hl e) (hl' e)
  induction h with
  | nothing => exact fun e he => by cases he
  | entered h x hid _ ih =>
    have hle := h.next_le
    exact happend ih (hnext fun hx => by omega)
  | changed h x x' hx hx' ih =>
    refine happend ih (hnext fun hid => ?_)
    rw [hx'.transient]
    exact hsame h x (by rw [← hid, hx'.id, hx])
  | removed h x hx ih => exact happend ih (hnext fun hid => hsame h x (hid ▸ hx))

end Narrates

/-- What the events tell of a job that was not yet known: first that it was added, and waits. -/
structure Opens (id : Nat) (r' : JobRoll) (events : List Event) : Prop where
  first : ∀ e, events.find? (fun e => e.jobId? == some id) = some e →
    ∃ s : JobSnapshot, s.id = id ∧ s.state = .waiting ∧ e = s.event .added
  told : ∀ s, r'.job id = some s → s.transient = false → ∃ e ∈ events, e.jobId? = some id
  untold : ∀ s, r'.job id = some s → s.transient = true → ∀ e ∈ events, e.jobId? ≠ some id
  later : r'.next ≤ id → ∀ e ∈ events, e.jobId? ≠ some id

namespace Opens

variable {r r' : JobRoll} {events : List Event} {id : Nat}

theorem more {tidings : List Event} (h : Opens id r events)
    (htold : ∀ s, r'.job id = some s → ∃ s', r.job id = some s' ∧ s.transient = s'.transient)
    (hnext : r.next ≤ r'.next)
    (hnew : ∀ e ∈ tidings, e.jobId? = some id →
      ∃ s, r.job id = some s ∧ s.transient = false ∧ id < r.next) :
    Opens id r' (events ++ tidings) where
  first e he := by
    rw [List.find?_append] at he
    cases hfirst : events.find? fun e => e.jobId? == some id with
    | some x =>
      rw [hfirst, Option.some_or] at he
      exact h.first e (hfirst.trans he)
    | none =>
      -- a job that is told of now was told of before
      rw [hfirst, Option.none_or] at he
      have hid : e.jobId? = some id := by simpa using List.find?_some he
      obtain ⟨s, hs, ht, -⟩ := hnew e (List.mem_of_find?_eq_some he) hid
      obtain ⟨x, hx, hxid⟩ := h.told s hs ht
      exact absurd hxid (by simpa using List.find?_eq_none.mp hfirst x hx)
  told s hs ht := by
    obtain ⟨s', hs', hsame⟩ := htold s hs
    obtain ⟨e, he, hid⟩ := h.told s' hs' (hsame ▸ ht)
    exact ⟨e, List.mem_append_left _ he, hid⟩
  untold s hs ht e he hid := by
    obtain ⟨s', hs', hsame⟩ := htold s hs
    rcases List.mem_append.mp he with he | he
    · exact h.untold s' hs' (hsame ▸ ht) e he hid
    · obtain ⟨x, hx, hfalse, -⟩ := hnew e he hid
      cases Option.some.inj (hs'.symm.trans hx)
      rw [hsame, hfalse] at ht
      cases ht
  later hle e he hid := by
    rcases List.mem_append.mp he with he | he
    · exact h.later (Nat.le_trans hnext hle) e he hid
    · obtain ⟨-, -, -, hlt⟩ := hnew e he hid
      omega

theorem entered {s : JobSnapshot} (h : Opens id r events) (hid : s.id = r.next)
    (hstate : s.state = .waiting) (heq : s.id = id) :
    Opens id (r.enter s) (events ++ s.tidings .added) := by
  have hbefore := h.later (by omega)
  have hjob : (r.enter s).job id = some s := if_pos heq.symm
  refine ⟨fun e he => ?_, fun x hx ht => ?_, fun x hx ht e he => ?_, fun hle => ?_⟩
  · rcases List.mem_append.mp (List.mem_of_find?_eq_some he) with hmem | hmem
    · exact absurd (by simpa using List.find?_some he) (hbefore e hmem)
    · obtain ⟨rfl, -⟩ := JobSnapshot.mem_tidings hmem
      exact ⟨s, heq, hstate, rfl⟩
  · cases Option.some.inj (hjob.symm.trans hx)
    refine ⟨s.event .added, List.mem_append_right _ ?_, congrArg some heq⟩
    simp [JobSnapshot.tidings, ht]
  · cases Option.some.inj (hjob.symm.trans hx)
    rcases List.mem_append.mp he with he | he
    · exact hbefore e he
    · exact absurd (JobSnapshot.mem_tidings he).2 (by simp [ht])
  · have hlt : r.next + 1 ≤ id := hle
    omega

end Opens

theorem Narrates.opens {r r' : JobRoll} {events : List Event} {id : Nat}
    (h : Narrates r events r') (hr : r.Bounded) (hid : r.next ≤ id) : Opens id r' events := by
  induction h with
  | nothing => constructor <;> simp [hr.fresh hid]
  | entered h s hs hstate ih =>
    by_cases heq : s.id = id
    · exact ih.entered hs hstate heq
    · refine ih.more (fun x hx => ⟨x, (if_neg (Ne.symm heq)).symm.trans hx, rfl⟩)
        (Nat.le_succ _) fun e he hjob => ?_
      obtain ⟨rfl, -⟩ := JobSnapshot.mem_tidings he
      exact absurd (Option.some.inj hjob) heq
  | changed h s s' hs hs' ih =>
    refine ih.more (fun x hx => ?_) (Nat.le_refl _) fun e he hjob => ?_
    · by_cases heq : id = s'.id
      · cases Option.some.inj ((if_pos heq).symm.trans hx)
        exact ⟨s, by rw [heq, hs'.id, hs], hs'.transient⟩
      · exact ⟨x, (if_neg heq).symm.trans hx, rfl⟩
    · obtain ⟨rfl, ht⟩ := JobSnapshot.mem_tidings he
      have heq : s.id = id := hs'.id.symm.trans (Option.some.inj hjob)
      exact ⟨s, heq ▸ hs, hs'.transient.symm.trans ht, heq ▸ (h.bounded hr _ s hs).2⟩
  | removed h s hs ih =>
    refine ih.more (fun x hx => ?_) (Nat.le_refl _) fun e he hjob => ?_
    · by_cases heq : id = s.id
      · cases (if_pos heq).symm.trans hx
      · exact ⟨x, (if_neg heq).symm.trans hx, rfl⟩
    · obtain ⟨rfl, ht⟩ := JobSnapshot.mem_tidings he
      have heq : s.id = id := Option.some.inj hjob
      exact ⟨s, heq ▸ hs, ht, heq ▸ (h.bounded hr _ s hs).2⟩

end Switchboard
