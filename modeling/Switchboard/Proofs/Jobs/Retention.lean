import Mathlib.Data.List.DropRight
import Mathlib.Data.List.Sort
import Switchboard.Proofs.Jobs.Handover
import Switchboard.Proofs.Jobs.Deeds

namespace Switchboard

section RightTake

variable {α : Type} {l k : List α} {n : Nat}

theorem rtake_of_length_le (h : l.length ≤ n) : l.rtake n = l := by
  rw [List.rtake, Nat.sub_eq_zero_of_le h, List.drop_zero]

/-- To cut a list before more is appended changes nothing if it is cut again. -/
theorem rtake_rtake_append (l k : List α) (n : Nat) :
    (l.rtake n ++ k).rtake n = (l ++ k).rtake n := by
  simp only [List.rtake_eq_reverse_take_reverse, List.reverse_append, List.reverse_reverse,
    List.take_append, List.take_take]
  congr 3
  omega

theorem mem_of_mem_rtake {a : α} (h : a ∈ l.rtake n) : a ∈ l := List.mem_of_mem_drop h

end RightTake

section Ends

variable {β : Type}

def endsIn (shown : List JobSnapshot) : List JobSnapshot :=
  shown.filter fun s => s.state.isTerminal

/-- The jobs among some that are not forgotten when they end. -/
def lastingIds (ended : List JobSnapshot) : List Nat :=
  (ended.filter fun s => !s.transient).map (·.id)

theorem endsIn_append (shown more : List JobSnapshot) :
    endsIn (shown ++ more) = endsIn shown ++ endsIn more := List.filter_append ..

theorem lastingIds_append (ended more : List JobSnapshot) :
    lastingIds (ended ++ more) = lastingIds ended ++ lastingIds more := by
  simp [lastingIds]

theorem lastingIds_singleton (s : JobSnapshot) :
    lastingIds [s] = if s.transient then [] else [s.id] := by
  unfold lastingIds
  cases ht : s.transient <;> simp [ht]

theorem endsIn_open {s : JobSnapshot} (h : s.state.isTerminal = false) : endsIn [s] = [] := by
  simp [endsIn, h]

theorem endsIn_end {s : JobSnapshot} (h : s.state.isTerminal = true) : endsIn [s] = [s] := by
  simp [endsIn, h]

end Ends

namespace JobTable

variable {β : Type} {t t' : JobTable β} {late : List Nat} {id : Nat} {e e' : JobEntry β}
  {past : List JobSnapshot}

theorem finished_retire (h : t.job? id = some e) (hfew : t.finished.length ≤ t.maxRetained) :
    (t.retire id).finished = (t.finished ++ lastingIds [e.snapshot]).rtake t.maxRetained := by
  have hid : e.snapshot.id = id := job?_id h
  cases ht : e.snapshot.transient with
  | true =>
    rw [(retire_transient h ht).2, lastingIds_singleton, ht, if_pos rfl, List.append_nil,
      rtake_of_length_le hfew]
  | false =>
    rw [(retire_remembered h ht).2, lastingIds_singleton, ht, hid]
    simp [List.rtake, excess]

/-- What the table has kept of the jobs that have ended in the past, but for those that are yet to
be counted. -/
structure Recalls (t : JobTable β) (late : List Nat) (past : List JobSnapshot) : Prop where
  positive : 0 < t.nextId
  numbered : ∀ id ∈ t.ids, 0 < id
  once : (past.map (·.id)).Nodup
  low : ∀ s ∈ past, s.id < t.nextId
  told : ∀ id e, t.job? id = some e → (e.state.isTerminal = true ↔ id ∈ past.map (·.id))
  kept : ∀ id, 0 < id → id < t.nextId → id ∉ past.map (·.id) → id ∈ t.ids
  counted : ∃ before now, past = before ++ now ∧ now.map (·.id) = late ∧
    t.finished = (lastingIds before).rtake t.maxRetained ∧
    ∀ s ∈ now, ∃ e, t.job? s.id = some e ∧ e.snapshot.transient = s.transient

theorem recalls_empty (maxRetained : Nat) : Recalls ({ maxRetained } : JobTable β) [] [] where
  positive := Nat.one_pos
  numbered _ hid := by cases hid
  once := .nil
  low _ hs := by cases hs
  told _ _ he := by cases he
  kept id hpos hlt := absurd hlt (Nat.not_lt.mpr hpos)
  counted := ⟨[], [], rfl, rfl, by simp [lastingIds], by simp⟩

theorem Recalls.not_past (h : t.Recalls late past) (he : t.job? id = some e)
    (hopen : e.state.isTerminal = false) : id ∉ past.map (·.id) := by
  intro hid
  rw [(h.told id e he).mpr hid] at hopen
  cases hopen

theorem Recalls.entered {job : NewJob β} {now : Nat} (h : t.Recalls late past)
    (hnew : Entered t t' (fresh now t.nextId job)) : t'.Recalls late past := by
  have hfar : ∀ s ∈ past, s.id ≠ t.nextId := fun s hs => Nat.ne_of_lt (h.low s hs)
  have hnext : t.nextId ∉ past.map (·.id) := by
    intro hid
    obtain ⟨s, hs, heq⟩ := List.mem_map.mp hid
    exact hfar s hs heq
  refine ⟨hnew.nextId ▸ Nat.succ_pos _, fun id hid => ?_, h.once,
    fun s hs => hnew.nextId ▸ Nat.lt_succ_of_lt (h.low s hs), fun id e he => ?_,
    fun id hpos hlt hnot => ?_, ?_⟩
  · rw [hnew.ids] at hid
    rcases List.mem_append.mp hid with hid | hid
    · exact h.numbered id hid
    · exact List.mem_singleton.mp hid ▸ h.positive
  · rw [hnew.job?] at he
    split at he
    next heq =>
      cases he
      exact ⟨fun hend => (by cases hend), fun hid => absurd (heq ▸ hid) hnext⟩
    next => exact h.told id e he
  · rw [hnew.nextId] at hlt
    rw [hnew.ids, List.mem_append, List.mem_singleton]
    rcases Nat.lt_succ_iff_lt_or_eq.mp hlt with hlt | heq
    · exact .inl (h.kept id hpos hlt hnot)
    · exact .inr heq
  · obtain ⟨before, now', hsplit, hlate, hfinished, hnow⟩ := h.counted
    refine ⟨before, now', hsplit, hlate, by rw [hnew.finished, hnew.maxRetained, hfinished],
      fun s hs => ?_⟩
    rw [hnew.job?, if_neg (hfar s (hsplit ▸ List.mem_append_right before hs))]
    exact hnow s hs

theorem Recalls.goes {shown : List JobSnapshot} {bodies : List β} (h : t.Recalls late past)
    (he : t.job? id = some e) (hgoes : e.Goes shown bodies e') (hsame : SameBut t t' id e') :
    t'.Recalls late past := by
  obtain ⟨hopen, hopen'⟩ := hgoes.unfinished
  have hnot := h.not_past he hopen
  refine ⟨hsame.nextId ▸ h.positive, hsame.ids ▸ h.numbered, h.once, hsame.nextId ▸ h.low,
    fun j x hx => ?_, ?_, ?_⟩
  · rw [hsame.job?] at hx
    split at hx
    next heq =>
      cases hx
      simp [hopen', heq ▸ hnot]
    next => exact h.told j x hx
  · rw [hsame.nextId, hsame.ids]
    exact h.kept
  · obtain ⟨before, now, hsplit, hlate, hfinished, hnow⟩ := h.counted
    refine ⟨before, now, hsplit, hlate, by rw [hsame.finished, hsame.maxRetained, hfinished],
      fun s hs => ?_⟩
    have hne : s.id ≠ id := by
      rintro rfl
      exact hnot (List.mem_map_of_mem (hsplit ▸ List.mem_append_right before hs))
    rw [hsame.job?, if_neg hne]
    exact hnow s hs

theorem Recalls.ends (h : t.Recalls [] past) (hlt : id < t.nextId) (he : t.job? id = some e)
    (hends : e.Ends e') (hsame : SameBut t t' id e') :
    t'.Recalls [id] (past ++ [e'.snapshot]) := by
  have hid : e'.snapshot.id = id := hends.sameJob.id.trans (job?_id he)
  have hnot := h.not_past he hends.unfinished
  have hids : (past ++ [e'.snapshot]).map (·.id) = past.map (·.id) ++ [id] := by simp [hid]
  refine ⟨hsame.nextId ▸ h.positive, hsame.ids ▸ h.numbered, ?_, fun s hs => ?_, fun j x hx => ?_,
    fun j hpos hlow hj => ?_, ?_⟩
  · rw [hids]
    refine List.nodup_append.mpr ⟨h.once, List.nodup_singleton _, fun j hj k hk => ?_⟩
    rw [List.mem_singleton.mp hk]
    exact fun heq => hnot (heq ▸ hj)
  · rw [hsame.nextId]
    rcases List.mem_append.mp hs with hs | hs
    · exact h.low s hs
    · rw [List.mem_singleton.mp hs, hid]
      exact hlt
  · rw [hids, List.mem_append, List.mem_singleton]
    rw [hsame.job?] at hx
    split at hx
    next heq =>
      cases hx
      simp [hends.terminal, heq]
    next hne => simpa [hne] using h.told j x hx
  · rw [hids, List.mem_append, not_or] at hj
    rw [hsame.ids]
    exact h.kept j hpos (hsame.nextId ▸ hlow) hj.1
  -- all that ended before is counted, and this job is not
  · obtain ⟨before, now, hsplit, hlate, hfinished, -⟩ := h.counted
    obtain rfl := List.map_eq_nil_iff.mp hlate
    rw [List.append_nil] at hsplit
    refine ⟨past, [e'.snapshot], rfl, by simp [hid], ?_, fun s hs => ?_⟩
    · rw [hsame.finished, hsame.maxRetained, hfinished, hsplit]
    · cases List.mem_singleton.mp hs
      exact ⟨e', by rw [hid, hsame.job?, if_pos rfl], rfl⟩

theorem Recalls.retired (h : t.Recalls [id] past) (hr : t.Remembers [id]) :
    (t.retire id).Recalls [] past := by
  obtain ⟨gone, hforgets, hover⟩ := retire_forgets hr
  refine ⟨hforgets.nextId ▸ h.positive, fun j hj => ?_, h.once, hforgets.nextId ▸ h.low,
    fun j x hx => ?_, fun j hpos hlt hj => ?_, ?_⟩
  · rw [hforgets.ids] at hj
    exact h.numbered j (List.mem_of_mem_filter hj)
  · rw [hforgets.job?] at hx
    split at hx
    next => cases hx
    next => exact h.told j x hx
  · have hmem := h.kept j hpos (hforgets.nextId ▸ hlt) hj
    rw [hforgets.ids, List.mem_filter]
    refine ⟨hmem, decide_eq_true fun hgone => ?_⟩
    obtain ⟨x, hx, hend⟩ := hover j hgone
    exact hj ((h.told j x hx).mp hend)
  · obtain ⟨before, now, rfl, hlate, hfinished, hnow⟩ := h.counted
    obtain ⟨s, rfl, rfl⟩ := List.map_eq_singleton_iff.mp hlate
    obtain ⟨e, he, htransient⟩ := hnow s (List.mem_singleton_self s)
    have hid : e.snapshot.id = s.id := job?_id he
    have hsame : lastingIds [e.snapshot] = lastingIds [s] := by
      rw [lastingIds_singleton, lastingIds_singleton, htransient, hid]
    refine ⟨before ++ [s], [], (List.append_nil _).symm, rfl, ?_, by simp⟩
    rw [finished_retire he hr.few, hforgets.maxRetained, hfinished, hsame, rtake_rtake_append,
      lastingIds_append]

theorem Recalls.deeds (hd : Deeds t late t') (h : t.Recalls [] past) (hi : t.InOrder [])
    (hsettled : t.effects = []) : t'.Recalls late (past ++ endsIn t'.reveals) := by
  induction hd with
  | nothing => simpa [reveals, hsettled, endsIn] using h
  | aside _ haside ih =>
    rw [haside.reveals]
    refine ⟨haside.nextId ▸ ih.positive, haside.ids ▸ ih.numbered, ih.once, haside.nextId ▸ ih.low,
      fun id e he => ih.told id e (haside.job? id ▸ he), ?_, ?_⟩
    · rw [haside.nextId, haside.ids]
      exact ih.kept
    · rw [haside.finished, haside.maxRetained]
      simpa only [haside.job?] using ih.counted
  | entered _ now job hnew hshown _ ih =>
    rw [hshown, endsIn_append, endsIn_open rfl, List.append_nil]
    exact ih.entered hnew
  | goes _ he hgoes hsame hshown _ ih =>
    have hnone : endsIn _ = [] := List.filter_eq_nil_iff.mpr fun s hs => by
      rw [hgoes.shown_is s hs]
      exact Bool.not_eq_true _ ▸ hgoes.unfinished.2
    rw [hshown, endsIn_append, hnone, List.append_nil]
    exact ih.goes he hgoes hsame
  | ended hd he hends hsame hshown _ ih =>
    rw [hshown, endsIn_append, endsIn_end hends.terminal, ← List.append_assoc]
    exact ih.ends ((hi.deeds hd).low_of_job? he) he hends hsame
  | retired hd ih =>
    rw [reveals_retire]
    exact ih.retired (hi.deeds hd).remembers

/-- What the table remembers of the jobs that have `ended`, the oldest first. -/
structure Retains (t : JobTable β) (ended : List JobSnapshot) : Prop where
  once : (ended.map (·.id)).Nodup
  told : ∀ id e, t.job? id = some e → (e.state.isTerminal = true ↔ id ∈ ended.map (·.id))
  /-- The last ones are remembered, but for the transient ones, in the order in which they ended. -/
  finished : t.finished = (lastingIds ended).rtake t.maxRetained
  count : t.finished.length = min (lastingIds ended).length t.maxRetained
  retained : ∀ id, t.Over id ↔ id ∈ (lastingIds ended).rtake t.maxRetained
  unfinished : ∀ id, 0 < id → id < t.nextId → id ∉ ended.map (·.id) →
    ∃ e, t.job? id = some e ∧ e.state.isTerminal = false
  transient : ∀ s ∈ ended, s.transient = true → t.job? s.id = none
  listed : t.snapshots.map (·.id) = (List.range' 1 (t.nextId - 1)).filter fun id =>
    id ∉ ended.map (·.id) ∨ id ∈ (lastingIds ended).rtake t.maxRetained

theorem exists_job?_of_mem (h : id ∈ t.ids) : ∃ e, t.job? id = some e := by
  cases he : t.job? id with
  | none => exact absurd h (job?_eq_none_iff.mp he)
  | some e => exact ⟨e, rfl⟩

theorem eq_of_increasing {l k : List Nat} (hl : l.Pairwise (· < ·)) (hk : k.Pairwise (· < ·))
    (h : ∀ a, a ∈ l ↔ a ∈ k) : l = k := by
  have hperm : l.Perm k :=
    (List.perm_ext_iff_of_nodup (hl.imp Nat.ne_of_lt) (hk.imp Nat.ne_of_lt)).mpr h
  exact hperm.eq_of_pairwise (fun a b _ _ hab hba => absurd hab (Nat.lt_asymm hba)) hl hk

theorem Recalls.over_iff (h : t.Recalls [] past) (hi : t.InOrder []) (id : Nat) :
    t.finished = (lastingIds past).rtake t.maxRetained ∧
      (t.Over id ↔ id ∈ (lastingIds past).rtake t.maxRetained) := by
  obtain ⟨before, now, hsplit, hlate, hfinished, -⟩ := h.counted
  obtain rfl := List.map_eq_nil_iff.mp hlate
  rw [List.append_nil] at hsplit
  subst hsplit
  refine ⟨hfinished, ?_⟩
  rw [← hfinished, ← hi.remembers.ended, List.append_nil]

theorem Recalls.retains (h : t.Recalls [] past) (hi : t.InOrder []) : t.Retains past where
  once := h.once
  told := h.told
  finished := (h.over_iff hi 0).1
  count := by
    rw [(h.over_iff hi 0).1, List.rtake, List.length_drop]
    omega
  retained id := (h.over_iff hi id).2
  unfinished id hpos hlt hnot := by
    obtain ⟨e, he⟩ := exists_job?_of_mem (h.kept id hpos hlt hnot)
    exact ⟨e, he, Bool.eq_false_iff.mpr fun hend => hnot ((h.told id e he).mp hend)⟩
  transient s hs htransient := by
    by_contra hthere
    obtain ⟨e, he⟩ := Option.ne_none_iff_exists'.mp hthere
    have hover : t.Over s.id := ⟨e, he, (h.told s.id e he).mpr (List.mem_map_of_mem hs)⟩
    obtain ⟨x, hx, heq⟩ := List.mem_map.mp (mem_of_mem_rtake ((h.over_iff hi s.id).2.mp hover))
    obtain ⟨hx, hlasting⟩ := List.mem_filter.mp hx
    -- a job ends once, so the end that is remembered is this one
    rw [List.inj_on_of_nodup_map h.once hx hs heq, htransient] at hlasting
    cases hlasting
  listed := by
    have hids : t.snapshots.map (·.id) = t.ids := List.map_map
    rw [hids]
    refine eq_of_increasing hi.sorted
      ((List.pairwise_lt_range' 1 Nat.one_pos).sublist List.filter_sublist) fun id => ?_
    rw [List.mem_filter, List.mem_range'_1, decide_eq_true_iff, ← (h.over_iff hi id).2]
    constructor
    · intro hid
      have hpos := h.numbered id hid
      have hlow := hi.low id hid
      obtain ⟨e, he⟩ := exists_job?_of_mem hid
      refine ⟨by omega, ?_⟩
      cases hend : e.state.isTerminal with
      | true => exact .inr ⟨e, he, hend⟩
      | false => exact .inl (h.not_past he hend)
    · rintro ⟨hrange, hnot | ⟨e, he, -⟩⟩
      · exact h.kept id (by omega) (by omega) hnot
      · exact (mem_ids_of_snapshot? (snapshot?_eq he)).1

end JobTable

namespace Workshop

variable {β : Type} {w : Workshop β} {maxRetained : Nat} {going : Bool}
  {effects : List (JobEffect β)}

theorem Annals.recalls (h : Annals maxRetained going effects w) :
    w.table.Recalls [] (endsIn (effects.filterMap JobEffect.revealed?)) := by
  refine h.invariant (P := fun effects t _ =>
    t.Recalls [] (endsIn (effects.filterMap JobEffect.revealed?))) ?_ ?_
  · exact JobTable.recalls_empty maxRetained
  · intro effects t started t' hr hsound hsettled hdeeds
    rw [List.filterMap_append, endsIn_append]
    have hlater := hr.deeds hdeeds hsound.inOrder hsettled
    exact ⟨hlater.positive, hlater.numbered, hlater.once, hlater.low, hlater.told, hlater.kept,
      hlater.counted⟩

/-- In every run, after every request and report and also when the jobs were stopped, the table has
all jobs that have not ended, and of those that have ended the last ones, as many as it may. -/
theorem last_ended_are_retained (h : Annals maxRetained going effects w) :
    w.table.maxRetained = maxRetained ∧
      w.table.Retains (endsIn (effects.filterMap JobEffect.revealed?)) :=
  ⟨h.maxRetained_eq, h.recalls.retains h.inOrder⟩

/-- The second and the third job end before the first, and only one may be remembered. -/
theorem last_ended_are_retained_in_rush : ∃ effects, Annals 1 true effects rush ∧
    lastingIds (endsIn (effects.filterMap JobEffect.revealed?)) = [2, 3, 1] ∧
    rush.table.finished = [2, 3, 1].rtake 1 ∧ rush.table.snapshots.map (·.id) = [1, 4] := by
  have hnew : Annals 1 true [] (opened 1 : Workshop Nat) := .opened
  have hcome := (((hnew.submit 0 (lockedJob "L" 10)).submit 1 (lockedJob "L" 20)).submit 2
    (lockedJob "L" 30)).submit 3 (lockedJob "L" 40)
  have hleft := ((hcome.abort 4 2).timer 3).handle 5 [] [] (.lockTimedOut 3) rfl
  have hlate := ((hleft.endBody 1 (.ok .null) (by decide)).timer 3).handle 6
    [.finished 1 (.ok .null)] [] (.lockTimedOut 3) rfl
  have hrun := hlate.handle 7 [] [] (.finished 1 (.ok .null)) rfl
  obtain ⟨hmax, hretains⟩ := last_ended_are_retained hrun
  have hfinished := hretains.finished
  rw [hmax] at hfinished
  exact ⟨_, hrun, rfl, hfinished, rfl⟩

end Workshop

end Switchboard
