import Switchboard.Proofs.Jobs.Lives
import Switchboard.Proofs.Jobs.Runs
import Switchboard.Proofs.Jobs.Telling

namespace Switchboard

section Effects

variable {β : Type} {r r' : JobRoll} {effects : List (JobEffect β)} {id : Nat}

theorem shownOf_nil (id : Nat) : shownOf id ([] : List (JobEffect β)) = [] := rfl

theorem JobEffect.IsAside.ne_conceal {e : JobEffect β} (h : e.IsAside) : e ≠ .conceal id := by
  rintro rfl
  exact h

theorem Recounts.gone_of_conceal (h : Recounts r effects r') (hr : r.Bounded)
    (hmem : JobEffect.conceal id ∈ effects) : id < r'.next ∧ r'.job id = none := by
  induction h with
  | nothing => cases hmem
  | aside _ e he ih =>
    rcases List.mem_append.mp hmem with hmem | hmem
    · exact ih hmem
    · exact absurd (List.mem_singleton.mp hmem).symm he.ne_conceal
  | entered _ s hid _ ih =>
    obtain ⟨hlt, hnone⟩ := ih ((List.mem_append.mp hmem).resolve_right (by simp))
    exact ⟨Nat.lt_succ_of_lt hlt, (if_neg (by omega)).trans hnone⟩
  | changed _ s s' hs hs' ih =>
    obtain ⟨hlt, hnone⟩ := ih ((List.mem_append.mp hmem).resolve_right (by simp))
    refine ⟨hlt, (if_neg fun heq => ?_).trans hnone⟩
    rw [heq, hs'.id, hs] at hnone
    cases hnone
  | removed h s hs ih =>
    have hlt := (h.narrates.bounded hr _ s hs).2
    rcases List.mem_append.mp hmem with hmem | hmem
    · obtain ⟨hlt, hnone⟩ := ih hmem
      exact ⟨hlt, by simp only [JobRoll.erase, hnone, ite_self]⟩
    · obtain rfl : id = s.id := by simpa using hmem
      exact ⟨hlt, if_pos rfl⟩
  | absent _ other hid hnone ih =>
    rcases List.mem_append.mp hmem with hmem | hmem
    · exact ih hmem
    · obtain rfl : id = other := by simpa using hmem
      exact ⟨hid, hnone⟩

/-- Nothing is shown of a job after it was concealed. -/
def HushedUp (id : Nat) (effects : List (JobEffect β)) : Prop :=
  effects.Pairwise fun e e' => e = .conceal id → ∀ s, e' = .reveal s → s.id ≠ id

theorem HushedUp.append {more : List (JobEffect β)} (h : HushedUp id effects)
    (hmore : HushedUp id more)
    (hlater : JobEffect.conceal id ∈ effects → ∀ s, JobEffect.reveal s ∈ more → s.id ≠ id) :
    HushedUp id (effects ++ more) := by
  refine List.pairwise_append.mpr ⟨h, hmore, fun e he e' he' heq s hs => ?_⟩
  subst heq hs
  exact hlater he s he'

theorem hushedUp_of_quiet (h : ∀ s, JobEffect.reveal s ∈ effects → s.id ≠ id) : HushedUp id effects :=
  List.pairwise_of_forall_mem_list fun _ _ _ he' _ s hs => h s (hs ▸ he')

theorem hushedUp_of_open (h : JobEffect.conceal id ∉ effects) : HushedUp id effects :=
  List.pairwise_of_forall_mem_list fun _ he _ _ heq => absurd (heq ▸ he) h

theorem Recounts.hushedUp (h : Recounts r effects r') (hr : r.Bounded) (id : Nat) :
    HushedUp id effects := by
  induction h with
  | nothing => exact .nil
  | aside _ e he ih =>
    refine ih.append (List.pairwise_singleton _ _) fun _ s hs => ?_
    rw [← List.mem_singleton.mp hs] at he
    exact he.elim
  | entered h s hid _ ih =>
    refine ih.append (hushedUp_of_open (by simp)) fun hmem x hx => ?_
    obtain ⟨hlt, -⟩ := h.gone_of_conceal hr hmem
    obtain rfl : x = s := by simpa using hx
    omega
  | changed h s s' hs hs' ih =>
    refine ih.append (hushedUp_of_open (by simp)) fun hmem x hx => ?_
    obtain ⟨-, hnone⟩ := h.gone_of_conceal hr hmem
    obtain rfl : x = s' := by simpa using hx
    rintro rfl
    rw [hs'.id, hs] at hnone
    cases hnone
  | removed _ s _ ih =>
    exact ih.append (hushedUp_of_quiet (by simp)) (by simp)
  | absent _ other _ _ ih =>
    exact ih.append (List.pairwise_singleton _ _) (by simp)

theorem mem_shownOf {s : JobSnapshot} :
    s ∈ shownOf id effects ↔ JobEffect.reveal s ∈ effects ∧ s.id = id := by
  rw [shownOf, List.mem_filter, List.mem_filterMap, decide_eq_true_iff]
  refine and_congr_left fun _ => ⟨?_, fun h => ⟨_, h, rfl⟩⟩
  rintro ⟨e, he, hs⟩
  cases e with
  | reveal x =>
    cases hs
    exact he
  | _ => cases hs

theorem HushedUp.shown {before after : List (JobEffect β)}
    (h : HushedUp id (before ++ .conceal id :: after)) :
    shownOf id (before ++ .conceal id :: after) = shownOf id before := by
  have hlast := (List.pairwise_cons.mp (List.pairwise_append.mp h).2.1).1
  have hnil : shownOf id after = [] := List.eq_nil_iff_forall_not_mem.mpr fun s hs => by
    obtain ⟨hmem, hid⟩ := mem_shownOf.mp hs
    exact hlast _ hmem rfl s rfl hid
  have hcons : shownOf id (.conceal id :: after) = shownOf id after := rfl
  rw [shownOf_append, hcons, hnil, List.append_nil]

end Effects

/-- The last of the snapshots is the end of the job. -/
def Concluded (shown : List JobSnapshot) : Prop := ∃ s ∈ shown.getLast?, s.state.isTerminal = true

section Shown

variable {s : JobSnapshot} {shown more : List JobSnapshot}

theorem getLast?_append_of_last (hs : shown.getLast? = some s) (more : List JobSnapshot) :
    (shown ++ more).getLast? = (s :: more).getLast? := by
  rw [List.getLast?_append, hs, List.getLast?_cons]
  cases more.getLast? <;> rfl

theorem concluded_append_iff (hs : shown.getLast? = some s) :
    Concluded (shown ++ more) ↔ Concluded (s :: more) := by
  rw [Concluded, getLast?_append_of_last hs, Concluded]

theorem Concluded.nothing_more (h : Concluded shown)
    (hmoves : (shown ++ more).IsChain JobSnapshot.Becomes) : more = [] := by
  obtain ⟨s, hs, hend⟩ := h
  cases more with
  | nil => rfl
  | cons x rest =>
    have hstep := (List.isChain_append.mp hmoves).2.2 s hs x rfl
    have hopen := hstep.unfinished
    rw [hend] at hopen
    cases hopen

end Shown

namespace JobTable

variable {β : Type} {t t' t'' : JobTable β} {id now : Nat} {e : JobEntry β} {stops : List Nat}

theorem job?_of_snapshot? {s : JobSnapshot} (h : t.snapshot? id = some s) :
    ∃ e, t.job? id = some e ∧ e.snapshot = s := Option.map_eq_some_iff.mp h

theorem job?_eq_none_of_snapshot? (h : t.snapshot? id = none) : t.job? id = none :=
  Option.map_eq_none_iff.mp h

/-- The new effects recount how the table has changed, and whoever is gone was seen off: what was
shown of it concludes with its end. -/
structure Parts (t t' : JobTable β) : Prop where
  numbered : t'.Numbered
  seenOff : ∃ effects, t'.effects = t.effects ++ effects ∧ Recounts t.roll effects t'.roll ∧
    ∀ id s, t.snapshot? id = some s → t'.snapshot? id = none → Concluded (s :: shownOf id effects)

theorem Parts.trans (ht : t.Numbered) (h : Parts t t') (h' : Parts t' t'') : Parts t t'' := by
  obtain ⟨effects, heffects, hrecounts, hoff⟩ := h.seenOff
  obtain ⟨more, hmore, hrecounts', hoff'⟩ := h'.seenOff
  refine ⟨h'.numbered, effects ++ more, by rw [hmore, heffects, List.append_assoc],
    hrecounts.append hrecounts', fun id s hs hnone => ?_⟩
  have hfares := hrecounts.fares ht.bounded id
  have hfares' := hrecounts'.fares h.numbered.bounded id
  have hnext : id < t'.roll.next :=
    Nat.lt_of_lt_of_le (ht.bounded id s hs).2 hrecounts.narrates.next_le
  have hjob : t.roll.job id = some s := hs
  rw [shownOf_append]
  cases hmid : t'.snapshot? id with
  | none =>
    obtain ⟨hnil, -⟩ := hfares'.of_gone hnext hmid
    rw [hnil, List.append_nil]
    exact hoff id s hs hmid
  | some s' =>
    have hlast : (s :: shownOf id effects).getLast? = some s' := by
      rcases hfares.now with hgone | hnow
      · cases hmid.symm.trans hgone
      · rw [hjob] at hnow
        exact hnow.symm.trans hmid
    exact (concluded_append_iff hlast).mpr (hoff' id s' hmid hnone)

/-- It is enough to look at the jobs that had not ended before. -/
theorem Tells.parts (ht : t.Numbered) (h : Tells t t' stops)
    (hgone : ∀ id e, t.job? id = some e → e.state.isTerminal = false → t'.job? id = none →
      ∃ s more, t'.reveals = t.reveals ++ s :: more ∧ s.id = id ∧ s.state.isTerminal = true ∧
        ∀ x ∈ more, x.id ≠ id) : Parts t t' := by
  obtain ⟨effects, heffects, -, hrecounts⟩ := h.recounts
  refine ⟨h.numbered, effects, heffects, hrecounts, fun id s hs hnone => ?_⟩
  cases hend : s.state.isTerminal with
  | true =>
    obtain ⟨hnil, -⟩ := (hrecounts.fares ht.bounded id).of_ended hs hend
    rw [hnil]
    exact ⟨s, rfl, hend⟩
  | false =>
    obtain ⟨e, he, rfl⟩ := job?_of_snapshot? hs
    obtain ⟨x, more, hreveals, rfl, hx, hother⟩ :=
      hgone id e he hend (job?_eq_none_of_snapshot? hnone)
    have hnew : effects.filterMap JobEffect.revealed? = x :: more := by
      rw [reveals, heffects, List.filterMap_append] at hreveals
      exact List.append_cancel_left hreveals
    have hshown : shownOf x.id effects = [x] := by
      rw [shownOf, hnew, List.filter_cons_of_pos (by simp),
        List.filter_eq_nil_iff.mpr (by simpa using hother)]
    rw [hshown]
    exact ⟨x, rfl, hx⟩

theorem Advances.stays {ended : List Nat} {started : List (Nat × β)}
    (h : Advances t t' ended started) (he : t.job? id = some e)
    (hopen : e.state.isTerminal = false) (hgone : t'.job? id = none) : id ∈ ended := by
  have hnot : ∀ {state lock}, ¬ t'.Has state lock id := by
    rintro state lock ⟨x, hx, -⟩
    rw [hgone] at hx
    cases hx
  by_contra hended
  cases hstate : e.state with
  | waiting =>
    by_cases hstarted : id ∈ started.map Prod.fst
    · exact hnot ((h.running e.snapshot.lock id).mpr (.inr ⟨⟨e, he, hstate, rfl⟩, hstarted⟩))
    · exact hnot ((h.has_waiting e.snapshot.lock id).mpr ⟨⟨e, he, hstate, rfl⟩, hended, hstarted⟩)
  | running => exact hnot ((h.running e.snapshot.lock id).mpr (.inl ⟨⟨e, he, hstate, rfl⟩, hended⟩))
  | success | failed | aborted =>
    rw [hstate] at hopen
    cases hopen

theorem reveals_finishUnstarted {state : JobState} (now : Nat) (error : CallError)
    (he : t.job? id = some e) (hnext : e.state.canBecome state = true) :
    (t.finishUnstarted now id state error).reveals =
      t.reveals ++ [(e.dismissed now state error).snapshot] := by
  have hjob : (t.takeBody id).job? id = some { e with body := none } := by
    rw [(sameBut_takeBody he).job?, if_pos rfl]
  have hshown := reveals_transition
    (fun s => { s with error := some error, timeFinished := some now }) hjob hnext
  have htaken : (t.takeBody id).reveals = t.reveals := by
    rw [takeBody, want_eq, reveals_wants]
    simp [JobEffect.revealed?, List.filterMap_cons, reveals, update]
  rw [htaken] at hshown
  exact (reveals_retire _ id).trans hshown

theorem Sound.reveals_dismiss (state : JobState) (h : t.Sound) (he : t.job? id = some e)
    (hwait : e.state = .waiting) (hnext : JobState.canBecome .waiting state = true) (now : Nat)
    (error : CallError) : ((t.release now id).finishUnstarted now id state error).reveals =
      t.reveals ++ [(e.dismissed now state error).snapshot] := by
  obtain ⟨lock, holder, waiting, -, -, -, hrelease⟩ := h.orderly.release_waiting he hwait now
  have he' : (t.release now id).job? id = some e := by rw [hrelease]; exact he
  have hquiet : (t.release now id).reveals = t.reveals := by rw [hrelease]; rfl
  rw [reveals_finishUnstarted now error he' (hwait ▸ hnext), hquiet]

theorem Sound.parts_submit (h : t.Sound) (ht : t.Numbered) (now : Nat) (job : NewJob β) :
    Parts t (t.submit now job).1 := by
  refine (ht.tells_submit now job).parts ht fun id e he hopen hgone => ?_
  cases hstand : t.standIn? job with
  | some folded =>
    simp only [JobTable.submit, hstand, log_eq, job?_wants, he] at hgone
    cases hgone
  | none =>
    obtain ⟨-, started, hadv⟩ := h.submit now hstand
    have hentered : (t.enter now job).job? id = some e := by
      have hne : id ≠ t.nextId := Nat.ne_of_lt (ht.lt_of_job? he)
      rw [(h.orderly.enter now job).job?, if_neg hne, he]
    cases hadv.stays hentered hopen hgone

theorem Sound.parts_abort (h : t.Sound) (ht : t.Numbered) (now id : Nat) :
    Parts t (t.abort now id).1 := by
  refine (ht.tells_abort now id).parts ht fun j x hx hopen hgone => ?_
  obtain ⟨-, ended, hadv, hended⟩ := h.abort now id
  obtain ⟨rfl, lock, e, he, hwait, -⟩ := (hended j).mp (hadv.stays hx hopen hgone)
  have hshown := h.reveals_dismiss .aborted he hwait rfl now .aborted
  have hid : e.snapshot.id = j := job?_id he
  refine ⟨(e.dismissed now .aborted .aborted).snapshot, [], ?_, hid, rfl, by simp⟩
  simp only [JobTable.abort, he, hwait, reveals_log]
  exact hshown

theorem Sound.parts_lockTimedOut (h : t.Sound) (ht : t.Numbered) (now id : Nat) :
    Parts t (t.lockTimedOut now id) := by
  refine (ht.tells_lockTimedOut now id).parts ht fun j x hx hopen hgone => ?_
  obtain ⟨-, ended, hadv, hended⟩ := h.timeout now id
  obtain ⟨rfl, lock, e, he, hwait, -⟩ := (hended j).mp (hadv.stays hx hopen hgone)
  let lock := e.snapshot.lock.getD ""
  let warned := t.log .warn s!"Job {j} timed out waiting for lock {lock}"
  have hsound : warned.Sound := h.wants [_]
  have hshown := hsound.reveals_dismiss .failed he hwait rfl now (.lockTimeout lock)
  rw [reveals_log] at hshown
  have hid : e.snapshot.id = j := job?_id he
  refine ⟨(e.dismissed now .failed (.lockTimeout lock)).snapshot, [], ?_, hid, rfl, by simp⟩
  simp only [JobTable.lockTimedOut, he, hwait, if_true]
  exact hshown

theorem Sound.parts_progress (h : t.Sound) (ht : t.Numbered) (id percent : Nat)
    (description : Option String) : Parts t (t.progress id percent description) := by
  refine (ht.tells_progress id percent description).parts ht fun j x hx hopen hgone => ?_
  cases (h.progress id percent description).2.stays hx hopen hgone

theorem Sound.parts_finish (h : t.Sound) (ht : t.Numbered) (he : t.job? id = some e)
    (hrun : e.state = .running) (now : Nat) (outcome : Except CallError Json) :
    Parts t (t.finish now id outcome) := by
  refine (ht.tells_finish now id outcome).parts ht fun j x hx hopen hgone => ?_
  obtain ⟨started, -, hadv⟩ := h.finish he hrun now outcome
  obtain rfl := List.mem_singleton.mp (hadv.stays hx hopen hgone)
  obtain ⟨more, hshown, hother⟩ := h.reveals_finish he hrun now outcome
  have hid : (e.settled now outcome).snapshot.id = j := (endSnapshot_id now _ _).trans (job?_id he)
  exact ⟨_, more, hshown, hid, isTerminal_of_settled now outcome e, hother⟩

theorem Sound.submit_answered (h : t.Sound) (ht : t.Numbered) (now : Nat) (job : NewJob β) :
    ∃ s, (t.submit now job).1.snapshot? (t.submit now job).2 = some s := by
  cases hstand : t.standIn? job with
  | none =>
    obtain ⟨s, hs, -⟩ := ht.submit_keeps now hstand
    have hid : (t.submit now job).2 = t.nextId := by
      simp only [JobTable.submit, hstand]
      split <;> rfl
    exact ⟨s, hid ▸ hs⟩
  | some folded =>
    obtain ⟨lock, id⟩ := folded
    obtain ⟨q, hq, hid⟩ := queue?_of_standIn? hstand
    have hfits := hq ▸ h.orderly.queues lock
    obtain ⟨holder, hholder, -, hruns, hwaits⟩ := hfits
    have hthere : ∃ state held, t.Has state held id := by
      rcases Option.or_eq_some_iff.mp hid with hlast | ⟨-, hrunning⟩
      · exact ⟨_, _, (hwaits id).mpr (List.mem_of_getLast? hlast)⟩
      · exact ⟨_, _, (hruns id).mpr (Option.some.inj (hrunning.symm.trans hholder))⟩
    obtain ⟨-, -, e, he, -⟩ := hthere
    simp only [JobTable.submit, hstand]
    exact ⟨e.snapshot, snapshot?_eq he⟩

/-- What the table wants while it changes, told from when it had nothing more to want. -/
theorem Parts.before_conceal (h : Parts t t') (ht : t.Numbered) (hsettled : t.effects = []) :
    Recounts t.roll t'.effects t'.roll ∧
      (∀ id s, t.snapshot? id = some s → t'.snapshot? id = none →
        Concluded (s :: shownOf id t'.effects)) ∧
      ∀ id s before after, t.snapshot? id = some s → t'.effects = before ++ .conceal id :: after →
        Concluded (s :: shownOf id before) := by
  obtain ⟨effects, heffects, hrecounts, hoff⟩ := h.seenOff
  obtain rfl : t'.effects = effects := by rw [heffects, hsettled, List.nil_append]
  refine ⟨hrecounts, hoff, fun id s before after hs hsplit => ?_⟩
  have hhushed := hsplit ▸ hrecounts.hushedUp ht.bounded id
  have hmem : .conceal id ∈ t'.effects := by
    rw [hsplit]
    simp
  obtain ⟨-, hnone⟩ := hrecounts.gone_of_conceal ht.bounded hmem
  have hconcluded := hoff id s hs hnone
  rwa [hsplit, hhushed.shown] at hconcluded

theorem Sound.asked {ids : List Nat} (h : t.Sound)
    (hids : ∀ id ∈ ids, ∃ lock, t.Has .running lock id) :
    let t' := ids.foldl (fun t id =>
      (t.update id fun e => { e with cancelled := true }).want (.cancel id)) t
    t'.Sound ∧ Advances t t' [] [] := by
  induction ids generalizing t with
  | nil => exact ⟨h, advances_refl t⟩
  | cons id rest ih =>
    obtain ⟨lock, e, he, hrun, -⟩ := hids id List.mem_cons_self
    have hsame := (sameBut_update (f := fun e => { e with cancelled := true }) he
      fun _ hid => hid).wants [.cancel id]
    obtain ⟨hsound, hadv⟩ := h.sameBut_running he hsame hrun hrun rfl rfl (by
      rw [starts_wants, starts_update]
      simp [JobEffect.started?])
    obtain ⟨hrest, hadv'⟩ := ih hsound fun j hj => by
      obtain ⟨lock, hj⟩ := hids j (List.mem_cons_of_mem _ hj)
      exact ⟨lock, hadv.still_running hj (by simp)⟩
    exact ⟨hrest, hadv.trans hadv' (by simp)⟩

theorem Remembers.dismissed (h : t.Remembers []) (he : t.job? id = some e)
    (hwait : e.state = .waiting) (now : Nat) :
    (t.finishUnstarted now id .aborted .aborted).Remembers [] ∧
      ∀ j x, t.job? j = some x → x.state.isTerminal = false → j ≠ id →
        (t.finishUnstarted now id .aborted .aborted).job? j = some x := by
  have hnext : e.state.canBecome .aborted = true := hwait ▸ rfl
  obtain ⟨t', hsame, hstarts, hfinish⟩ := finishUnstarted_spec now .aborted he hnext
  have hended : JustEnded t t' id e (e.dismissed now .aborted .aborted) :=
    ⟨he, hsame, rfl, rfl, rfl, hstarts⟩
  have hlate := h.just_ended hended (by rw [hwait]; rfl)
  obtain ⟨gone, hforgets, hover⟩ := retire_forgets hlate
  rw [hfinish]
  refine ⟨hlate.retire, fun j x hx hopen hne => ?_⟩
  have hkept : t'.job? j = some x := by rw [hsame.job?, if_neg hne, hx]
  rw [hforgets.job?, if_neg fun hj => ?_, hkept]
  obtain ⟨y, hy, hend⟩ := hover j hj
  cases Option.some.inj (hkept.symm.trans hy)
  rw [hopen] at hend
  cases hend

theorem Remembers.parts_foldl {ids : List Nat} (h : t.Remembers []) (ht : t.Numbered)
    (hids : ∀ id ∈ ids, ∃ e, t.job? id = some e ∧ e.state = .waiting) (hnodup : ids.Nodup)
    (now : Nat) :
    Parts t (ids.foldl (fun t id => t.finishUnstarted now id .aborted .aborted) t) := by
  induction ids generalizing t with
  | nil =>
    exact ht.tells_refl.parts ht fun id e he _ hgone => by
      cases Eq.trans he.symm hgone
  | cons id rest ih =>
    obtain ⟨e, he, hwait⟩ := hids id List.mem_cons_self
    obtain ⟨hnot, hrest⟩ := List.nodup_cons.mp hnodup
    obtain ⟨hremembers, hstay⟩ := h.dismissed he hwait now
    have htells := ht.tells_finishUnstarted (ht.lt_of_job? he) now .aborted .aborted
    have hfirst := htells.parts ht fun j x hx hopen hgone => by
      by_cases hne : j = id
      · subst hne
        have hid : e.snapshot.id = j := job?_id he
        exact ⟨_, [], reveals_finishUnstarted now .aborted he (hwait ▸ rfl), hid, rfl, by simp⟩
      · cases (hstay j x hx hopen hne).symm.trans hgone
    refine hfirst.trans ht (ih hremembers htells.numbered (fun j hj => ?_) hrest)
    obtain ⟨x, hx, hxw⟩ := hids j (List.mem_cons_of_mem _ hj)
    have hne : j ≠ id := fun heq => hnot (heq ▸ hj)
    exact ⟨x, hstay j x hx (by rw [hxw]; rfl) hne, hxw⟩

theorem job?_of_mem (h : t.ids.Pairwise (· < ·)) (he : e ∈ t.jobs) : t.job? e.id = some e := by
  have hsorted : t.jobs.Pairwise fun x y => x.id < y.id := List.pairwise_map.mp h
  obtain ⟨before, after, heq⟩ := List.append_of_mem he
  refine List.find?_eq_some_iff_append.mpr ⟨by simp, before, after, heq, fun x hx => ?_⟩
  rw [heq] at hsorted
  have hlt := (List.pairwise_append.mp hsorted).2.2 x hx e List.mem_cons_self
  simpa using Nat.ne_of_lt hlt

theorem job?_of_mem_filter {p : JobEntry β → Bool} (h : t.ids.Pairwise (· < ·))
    (hid : id ∈ (t.jobs.filter p).map JobEntry.id) : ∃ e, t.job? id = some e ∧ p e = true := by
  obtain ⟨e, he, rfl⟩ := List.mem_map.mp hid
  obtain ⟨hjob, hp⟩ := List.mem_filter.mp he
  exact ⟨e, job?_of_mem h hjob, hp⟩

theorem Sound.parts_stopAll (h : t.Sound) (ht : t.Numbered) (now : Nat) :
    Parts t (t.stopAll now).1 := by
  -- first the running jobs are asked to stop
  have hrunning : ∀ id ∈ t.runningIds, id < t.nextId ∧ ∃ lock, t.Has .running lock id := by
    intro id hid
    obtain ⟨e, he, hrun⟩ := job?_of_mem_filter h.orderly.sorted hid
    exact ⟨ht.lt_of_job? he, _, e, he, of_decide_eq_true hrun, rfl⟩
  obtain ⟨hsound, hadv⟩ := h.asked fun id hid => (hrunning id hid).2
  have htold := ht.tells_asks fun id hid => (hrunning id hid).1
  have hasked := htold.parts ht fun id e he hopen hgone => by
    cases hadv.stays he hopen hgone
  -- then the waiting jobs are dismissed
  have hwaiting : ∀ id ∈ (t.jobs.filter fun e => e.state = .waiting).map JobEntry.id,
      ∃ e, (t.runningIds.foldl (fun t id =>
        (t.update id fun e => { e with cancelled := true }).want (.cancel id)) t).job? id = some e ∧
          e.state = .waiting := by
    intro id hid
    obtain ⟨e, he, hwait⟩ := job?_of_mem_filter h.orderly.sorted hid
    have hkept := (hadv.waiting id e).mpr ⟨⟨he, of_decide_eq_true hwait⟩, by simp, by simp⟩
    exact ⟨e, hkept.1, hkept.2⟩
  have hnodup := (h.orderly.sorted.imp Nat.ne_of_lt).sublist
    (List.filter_sublist (p := fun e => decide (e.state = .waiting)) |>.map JobEntry.id)
  have hended := hsound.remembers.parts_foldl hasked.numbered hwaiting hnodup now
  -- at last the queues are cleared
  have hboth := hasked.trans ht hended
  exact hboth.trans ht (hboth.numbered.tells_unlock.parts hboth.numbered fun id e he _ hgone => by
    cases Eq.trans (Eq.symm he) hgone)

end JobTable

end Switchboard
