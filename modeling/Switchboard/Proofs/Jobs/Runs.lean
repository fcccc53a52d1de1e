import Switchboard.Proofs.Jobs.Ledger

namespace Switchboard.Workshop

open JobTable

variable {β : Type} {w w' : Workshop β}
variable {t t' : JobTable β} {taken : List (Nat × NewJob β)} {started more : List (Nat × β)}
  {ended owed : List Nat} {lock : String} {id : Nat}

/-- A later state: only jobs that were there to wait, or that came later, wait or start in it. -/
structure Later (w w' : Workshop β) : Prop where
  nextId : w.table.nextId ≤ w'.table.nextId
  maxRetained : w'.table.maxRetained = w.table.maxRetained
  waiting : ∀ held id, w'.table.Has .waiting held id →
    w.table.Has .waiting held id ∨ w.table.nextId ≤ id
  started : ∀ s ∈ w'.started, s ∈ w.started ∨
    (∃ held, w.table.Has .waiting held s.1) ∨ w.table.nextId ≤ s.1

theorem later_of_eq (htable : w'.table = w.table) (hstarted : w'.started = w.started) :
    Later w w' := by
  refine ⟨Nat.le_of_eq (by rw [htable]), by rw [htable], fun held id hw => ?_, fun s hs => ?_⟩
  · rw [htable] at hw
    exact .inl hw
  · rw [hstarted] at hs
    exact .inl hs

theorem Later.trans {w'' : Workshop β} (h : Later w w') (h' : Later w' w'') : Later w w'' where
  nextId := Nat.le_trans h.nextId h'.nextId
  maxRetained := h'.maxRetained.trans h.maxRetained
  waiting held id hw := by
    rcases h'.waiting held id hw with hw | hle
    · exact h.waiting held id hw
    · exact .inr (Nat.le_trans h.nextId hle)
  started s hs := by
    rcases h'.started s hs with hs | ⟨held, hw⟩ | hle
    · exact h.started s hs
    · rcases h.waiting held s.1 hw with hw | hle
      · exact .inr (.inl ⟨held, hw⟩)
      · exact .inr (.inr hle)
    · exact .inr (.inr (Nat.le_trans h.nextId hle))

theorem Later.adopt {v : Workshop β} (hadv : Advances t t' ended more) (hnone : t.starts = [])
    (hstarted : v.started = w.started) (hnext : w.table.nextId ≤ t.nextId)
    (hmax : t.maxRetained = w.table.maxRetained)
    (hwaiting : ∀ held id, t.Has .waiting held id →
      w.table.Has .waiting held id ∨ w.table.nextId ≤ id) : Later w (v.adopt t') where
  nextId := Nat.le_trans hnext (Nat.le_of_eq hadv.nextId.symm)
  maxRetained := hadv.maxRetained.trans hmax
  waiting held id hw := hwaiting held id ((hadv.has_waiting held id).mp hw).1
  started s hs := by
    have hstarts : t'.starts = more := by rw [hadv.starts, hnone, List.nil_append]
    rw [Workshop.adopt, hstarts, hstarted] at hs
    rcases List.mem_append.mp hs with hs | hs
    · exact .inl hs
    · obtain ⟨held, hw⟩ := hadv.started_waits (List.mem_map_of_mem hs)
      rcases hwaiting held s.1 hw with hw | hle
      · exact .inr (.inl ⟨held, hw⟩)
      · exact .inr (.inr hle)

theorem Owes.ends_waiting (h : Owes t owed [])
    (hended : ∀ id ∈ ended, ∃ held, t.Has .waiting held id) : Owes t owed ended where
  nodup := h.nodup
  running id := by
    rw [h.running]
    refine and_congr_right ?_
    rintro ⟨held, hr⟩
    simp only [List.not_mem_nil, not_false_eq_true, true_iff]
    intro hid
    obtain ⟨held', hw⟩ := hended id hid
    cases (hr.unique hw).1

theorem Owes.ends_first (h : Owes t (id :: owed) []) : Owes t owed [id] where
  nodup := (List.nodup_cons.mp h.nodup).2
  running j := by
    have hj := h.running j
    have hid : id ∉ owed := (List.nodup_cons.mp h.nodup).1
    simp only [List.mem_cons, List.not_mem_nil, not_false_eq_true, and_true] at hj
    rw [← hj, List.mem_singleton]
    constructor
    · rintro hmem
      exact ⟨.inr hmem, fun heq => hid (heq ▸ hmem)⟩
    · rintro ⟨rfl | hmem, hne⟩
      · exact absurd rfl hne
      · exact hmem

theorem Owes.perm {owing : List Nat} (h : Owes t owed ended) (hperm : owing.Perm owed) :
    Owes t owing ended :=
  ⟨hperm.nodup_iff.mpr h.nodup, fun id => hperm.mem_iff.trans (h.running id)⟩

theorem owed_send {r : JobReport} (hr : r.finished? = none) (w : Workshop β) :
    (w.send r).owed = w.owed := by
  simp [Workshop.owed, send, hr]

theorem Sound.send (h : w.Sound) {r : JobReport} (hr : r.finished? = none) : (w.send r).Sound :=
  ⟨h.table, h.settled, h.ledger, (owed_send hr w).symm ▸ h.owes⟩

theorem owed_endBody_perm (outcome : Except CallError Json) (h : id ∈ w.atWork) :
    (w.endBody id outcome).owed.Perm w.owed := by
  have herase : (w.atWork.erase id ++ [id]).Perm w.atWork :=
    List.perm_append_comm.trans (List.perm_cons_erase h).symm
  have howed : (w.endBody id outcome).owed =
      w.atWork.erase id ++ (w.mail.filterMap JobReport.finished? ++ [id]) := by
    simp [Workshop.owed, endBody, Workshop.send, JobReport.finished?]
  rw [howed]
  refine (List.Perm.append_left _ List.perm_append_comm).trans ?_
  rw [← List.append_assoc]
  exact herase.append_right _

theorem Sound.endBody (h : w.Sound) (outcome : Except CallError Json) (hid : id ∈ w.atWork) :
    (w.endBody id outcome).Sound :=
  ⟨h.table, h.settled, h.ledger, h.owes.perm (owed_endBody_perm outcome hid)⟩

theorem Sound.starts (h : w.Sound) : w.table.starts = [] := by
  simp [JobTable.starts, h.settled]

theorem Sound.adopt_kept {v : Workshop β} (h : w.Sound) (hsound : t'.Sound)
    (hadv : Advances w.table t' ended more) (howes : Owes w.table v.owed ended)
    (htaken : v.taken = w.taken) (hstarted : v.started = w.started) :
    (v.adopt t').Sound ∧ Later w (v.adopt t') := by
  have hledger : Ledger w.table v.taken v.started := by
    rw [htaken, hstarted]
    exact h.ledger
  refine ⟨Sound.adopt hsound hadv h.starts hledger howes, ?_⟩
  exact Later.adopt hadv h.starts hstarted (Nat.le_refl _) rfl fun _ _ hw => .inl hw

theorem Sound.submit (h : w.Sound) (now : Nat) (job : NewJob β) :
    (w.submit now job).Sound ∧ Later w (w.submit now job) := by
  cases hstand : w.table.standIn? job with
  | some folded =>
    have htable : (w.table.submit now job).1 = w.table.wants [.log ⟨.debug,
        s!"Lock {folded.1} queue is full, {job.method} folded into job {folded.2}"⟩] := by
      simp [JobTable.submit, hstand, log_eq]
    simp only [Workshop.submit, hstand, htable, Option.isNone_some, Bool.false_eq_true, if_false,
      List.append_nil]
    exact h.adopt_kept (h.table.wants _) (advances_wants rfl) h.owes rfl rfl
  | none =>
    obtain ⟨hsound, more, hadv⟩ := h.table.submit now hstand
    have ho := h.table.orderly
    have hnew := ho.enter now job
    have hnone : (w.table.enter now job).starts = [] := by
      obtain ⟨-, -, -, -, -, -, hstarts⟩ := enter_spec now job ho.nextId_not_mem
      exact hstarts.trans h.starts
    have howes : Owes (w.table.enter now job) w.owed [] :=
      ⟨h.owes.nodup, fun id => by simp only [h.owes.running, ho.running_enter_iff now job]⟩
    simp only [Workshop.submit, hstand, Option.isNone_none, if_true]
    refine ⟨Sound.adopt hsound hadv hnone (h.ledger.enter ho now job) howes, ?_⟩
    refine Later.adopt hadv hnone rfl (by rw [hnew.nextId]; omega) hnew.maxRetained ?_
    intro held id hw
    rw [hnew.has_iff] at hw
    split at hw
    next heq => exact .inr (Nat.le_of_eq heq.symm)
    next => exact .inl hw

theorem Sound.abort (h : w.Sound) (now id : Nat) :
    (w.abort now id).Sound ∧ Later w (w.abort now id) := by
  obtain ⟨hsound, ended, hadv, hended⟩ := h.table.abort now id
  refine h.adopt_kept hsound hadv (h.owes.ends_waiting fun j hj => ?_) rfl rfl
  obtain ⟨rfl, lock, hw⟩ := (hended j).mp hj
  exact ⟨lock, hw⟩

theorem owed_handled {before after : List JobReport} {r : JobReport}
    (h : w.mail = before ++ r :: after) :
    w.owed.Perm (r.finished?.toList ++ { w with mail := before ++ after }.owed) := by
  unfold Workshop.owed
  rw [h]
  cases hr : r.finished? with
  | none => simp [hr]
  | some id =>
    simp only [List.filterMap_append, List.filterMap_cons, hr, Option.toList_some,
      List.singleton_append, ← List.append_assoc]
    exact List.perm_middle

theorem Sound.handle {before after : List JobReport} {r : JobReport} (h : w.Sound)
    (hmail : w.mail = before ++ r :: after) (now : Nat) :
    (w.handle now r (before ++ after)).Sound ∧ Later w (w.handle now r (before ++ after)) := by
  have howed := owed_handled hmail
  cases r with
  | progressed id percent description =>
    obtain ⟨hsound, hadv⟩ := h.table.progress id percent description
    exact h.adopt_kept hsound hadv (h.owes.perm howed.symm) rfl rfl
  | finished id outcome =>
    have howes := h.owes.perm howed.symm
    obtain ⟨⟨lock, e, he, hs, -⟩, -⟩ := (howes.running id).mp (by simp [JobReport.finished?])
    obtain ⟨more, hsound, hadv⟩ := h.table.finish he hs now outcome
    exact h.adopt_kept hsound hadv howes.ends_first rfl rfl
  | lockTimedOut id =>
    have howes := h.owes.perm howed.symm
    obtain ⟨hsound, ended, hadv, hended⟩ := h.table.timeout now id
    refine h.adopt_kept hsound hadv (howes.ends_waiting fun j hj => ?_) rfl rfl
    obtain ⟨rfl, lock, hw⟩ := (hended j).mp hj
    exact ⟨lock, hw⟩

theorem Sound.step (h : w.Sound) (hstep : Step w w') : w'.Sound ∧ Later w w' := by
  cases hstep with
  | submit now job => exact h.submit now job
  | abort now id => exact h.abort now id
  | look => exact ⟨h, later_of_eq rfl rfl⟩
  | progress id percent description => exact ⟨h.send rfl, later_of_eq rfl rfl⟩
  | endBody id outcome hid => exact ⟨h.endBody outcome hid, later_of_eq rfl rfl⟩
  | timer id => exact ⟨h.send rfl, later_of_eq rfl rfl⟩
  | handle now before after r hmail => exact h.handle hmail now

theorem Sound.runs (h : w.Sound) (hruns : Runs w w') : w'.Sound ∧ Later w w' := by
  induction hruns with
  | refl => exact ⟨h, later_of_eq rfl rfl⟩
  | tail _ hstep ih =>
    obtain ⟨hsound, hlater⟩ := ih.1.step hstep
    exact ⟨hsound, ih.2.trans hlater⟩

theorem sound_of_reachable {maxRetained : Nat} (h : Reachable maxRetained w) :
    w.Sound ∧ w.table.maxRetained = maxRetained := by
  obtain ⟨hsound, hlater⟩ := (sound_opened maxRetained).runs h
  exact ⟨hsound, hlater.maxRetained⟩

end Switchboard.Workshop
