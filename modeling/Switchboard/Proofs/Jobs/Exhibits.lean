import Switchboard.Proofs.Jobs.Closings
import Switchboard.Proofs.Jobs.Vigils

namespace Switchboard

theorem JobBoard.shown_of_foldl_see {β : Type} {b : JobBoard} {effects : List (JobEffect β)}
    {id : Nat} {s : JobSnapshot} (h : (effects.foldl JobBoard.see b).snapshot? id = some s) :
    b.snapshot? id = some s ∨ s.id = id ∧ s ∈ effects.filterMap JobEffect.revealed? := by
  induction effects generalizing b with
  | nil => exact .inl h
  | cons effect rest ih =>
    rcases ih h with hseen | ⟨hid, hmem⟩
    · cases effect with
      | reveal s' =>
        rw [JobBoard.see, JobBoard.snapshot?_reveal] at hseen
        split at hseen
        next hid =>
          cases hseen
          exact .inr ⟨hid.symm, List.mem_cons_self⟩
        next => exact .inl hseen
      | _ => exact .inl hseen
    · refine .inr ⟨hid, ?_⟩
      rw [List.filterMap_cons]
      split
      next => exact hmem
      next => exact List.mem_cons_of_mem _ hmem

theorem Workshop.taken_submit {β : Type} {w : Workshop β} {job : NewJob β}
    (h : w.table.standIn? job = none) (now : Nat) :
    (w.submit now job).taken = w.taken ++ [(w.table.nextId, job)] := by
  simp [Workshop.submit, Workshop.adopt, h]

/-- What can be shown as the end of a job when a report comes in: the end that was reported, or that
the time of the job is up. -/
inductive JobReport.Ends (β : Type) (now : Nat) : JobReport → JobSnapshot → Prop where
  | finished {e : JobEntry β} (outcome : Except CallError Json) (hkept : e.cancelled = false) :
      Ends β now (.finished e.id outcome) (e.settled now outcome).snapshot
  | timedOut (e : JobEntry β) (lock : String) :
      Ends β now (.lockTimedOut e.id) (e.dismissed now .failed (.lockTimeout lock)).snapshot

namespace Gallery

variable {β : Type} {g : Gallery β} {id : Nat} {shown : List JobSnapshot}

theorem Sound.settled (hg : g.Sound) : g.settled.Sound := by
  obtain ⟨shop, board, unseen, stopped⟩ := g
  induction unseen generalizing board with
  | nil => exact hg
  | cons e rest ih => exact ih (board.see e) (hg.step (.see _ e rest rfl))

theorem Follows.settled (hf : Follows id g shown) :
    Follows id g.settled (shown ++ shownOf id g.unseen) := by
  obtain ⟨shop, board, unseen, stopped⟩ := g
  induction unseen generalizing board shown with
  | nil =>
    rw [shownOf_nil, List.append_nil]
    exact hf
  | cons e rest ih =>
    have hrest := ih (board.see e) (hf.sees rfl)
    rwa [List.append_assoc, ← shownOf_append] at hrest

end Gallery

/-- A workshop whose table wants nothing and has asked no job to stop, and what is to be seen of its
jobs. -/
structure Exhibits {β : Type} (w : Workshop β) (board : JobBoard) : Prop where
  sound : Gallery.Sound { shop := w, board }
  follows : ∀ j ∈ w.taken, ∃ shown, Gallery.Follows j.1 { shop := w, board } shown
  bounded : ∀ id s, board.snapshot? id = some s → id < w.table.nextId
  counted : ∀ id, 0 < id → id < w.table.nextId → id ∈ w.taken.map Prod.fst
  unharmed : w.table.Unharmed

namespace Exhibits

variable {β : Type} {w w' : Workshop β} {board : JobBoard} {t : JobTable β}
  {ends : List JobSnapshot}

theorem opened (maxRetained : Nat) : Exhibits (.opened maxRetained : Workshop β) {} :=
  ⟨Gallery.sound_opened maxRetained, fun _ hj => (List.not_mem_nil hj).elim,
    fun _ _ hs => (by cases hs),
    fun _ hlow hhigh => absurd hlow (Nat.not_lt.mpr (Nat.le_of_lt_succ hhigh)),
    fun _ he => (List.not_mem_nil he).elim⟩

theorem shop (h : Exhibits w board) : w.Sound := h.sound.going rfl

/-- Who waits for the end of a job that was taken in is told of an end that is shown. -/
theorem ended (h : Exhibits w board) {j : Nat × NewJob β} (hj : j ∈ w.taken)
    {ending : Except CallError JobSnapshot} (hending : board.ending? j.1 = some ending) :
    ∃ s, ending = .ok s ∧ board.snapshot? j.1 = some s ∧ s.state.isTerminal = true := by
  obtain ⟨shown, hfollows⟩ := h.follows j hj
  obtain ⟨s, hlast, hs : board.snapshot? j.1 = some s⟩ := hfollows.board
  refine ⟨s, ?_⟩
  cases hend : s.state.isTerminal with
  | true => simpa [JobBoard.ending?, hs, hend, eq_comm] using hending
  | false =>
    have hclosed : board.closed = false := by
      cases hclosed : board.closed with
      | false => rfl
      | true => cases (h.sound.left hclosed).1
    have hshown : j.1 ∉ board.concealed := fun hid => by
      obtain ⟨s', hs', hend'⟩ := hfollows.concealed hid
      cases Option.some.inj (hlast.symm.trans hs')
      rw [hend] at hend'
      cases hend'
    simp [JobBoard.ending?, hs, hend, JobBoard.isOver, hclosed, hshown] at hending

theorem awaited (h : Exhibits w board) {id : Nat} (hlow : 0 < id) (hhigh : id < w.table.nextId)
    (hnone : board.ending? id = none) :
    ∃ s, w.table.snapshot? id = some s ∧ s.state.isTerminal = false := by
  obtain ⟨j, hj, rfl⟩ := List.mem_map.mp (h.counted id hlow hhigh)
  obtain ⟨shown, hfollows⟩ := h.follows j hj
  obtain ⟨s, hlast, hs : board.snapshot? j.1 = some s⟩ := hfollows.board
  have hopen : s.state.isTerminal = false := by
    cases hend : s.state.isTerminal with
    | false => rfl
    | true => simp [JobBoard.ending?, hs, hend] at hnone
  have hall : (shown ++ shownOf j.1 ([] : List (JobEffect β))).getLast? = some s := by
    rw [shownOf_nil, List.append_nil]
    exact hlast
  rcases hfollows.table with htable | ⟨-, s', hs', hend⟩
  · exact ⟨s, htable.trans hall, hopen⟩
  · cases hall.symm.trans hs'
    rw [hopen] at hend
    cases hend

theorem aside (h : Exhibits w board) (hstep : w.Step w') (htable : w'.table = w.table)
    (htaken : w'.taken = w.taken) : Exhibits w' board := by
  have hgallery := Gallery.Step.aside { shop := w, board } w' hstep htable
  refine ⟨h.sound.step hgallery, fun j hj => ?_, ?_, ?_, ?_⟩
  · obtain ⟨shown, hfollows⟩ := h.follows j (htaken ▸ hj)
    exact ⟨_, hfollows.step h.sound hgallery⟩
  · rw [htable]
    exact h.bounded
  · rw [htable, htaken]
    exact h.counted
  · rw [htable]
    exact h.unharmed

theorem turn (h : Exhibits w board) (htable : w'.table = { t with effects := [] })
    (hstep : Gallery.Step { shop := w, board } []
      { shop := w', board, unseen := t.effects })
    (htells : JobTable.Tells w.table t []) (hcloses : JobTable.Closes w.table t ends)
    (htaken : ∀ j ∈ w'.taken, j ∈ w.taken ∨ ∃ first, w'.table.snapshot? j.1 = some first)
    (hcounted : ∀ id, 0 < id → id < t.nextId → id ∈ w'.taken.map Prod.fst) :
    Exhibits w' (t.effects.foldl JobBoard.see board) ∧
      ∀ id s, (t.effects.foldl JobBoard.see board).snapshot? id = some s →
        s.state.isTerminal = true → board.snapshot? id = some s ∨ s.id = id ∧ s ∈ ends := by
  have hsound := (h.sound.step hstep).settled
  obtain ⟨effects, heffects, -, hrecounts⟩ := htells.recounts
  obtain rfl : t.effects = effects := by rw [heffects, h.shop.settled, List.nil_append]
  refine ⟨⟨hsound, fun j hj => ?_, fun id s hs => ?_, htable ▸ hcounted, ?_⟩,
    fun id s hs hend => ?_⟩
  · rcases htaken j hj with hold | ⟨first, hfirst⟩
    · obtain ⟨shown, hfollows⟩ := h.follows j hold
      exact ⟨_, (hfollows.step h.sound hstep).settled⟩
    · exact ⟨_, hsound.follows ⟨rfl, rfl⟩ hfirst⟩
  · rw [htable]
    rcases JobBoard.shown_of_foldl_see hs with hold | ⟨hid, hmem⟩
    · exact Nat.lt_of_lt_of_le (h.bounded id s hold) htells.nextId_le
    · by_contra hlate
      have hnone := (hrecounts.fares h.sound.numbered.bounded id).later (Nat.not_lt.mp hlate)
      have hshown : s ∈ shownOf id t.effects := List.mem_filter.mpr ⟨hmem, by simpa using hid⟩
      rw [hnone] at hshown
      cases hshown
  · rw [htable]
    exact hcloses.unharmed h.unharmed
  · refine (JobBoard.shown_of_foldl_see hs).imp_right fun ⟨hid, hmem⟩ => ⟨hid, ?_⟩
    obtain ⟨more, hmore, rfl⟩ := hcloses.shows
    have hnone : w.table.reveals = [] := by
      rw [JobTable.reveals, h.shop.settled, List.filterMap_nil]
    rw [hnone, List.nil_append] at hmore
    exact List.mem_filter.mpr ⟨hmore ▸ hmem, hend⟩

theorem submit (h : Exhibits w board) (now : Nat) {job : NewJob β}
    (hnew : w.table.standIn? job = none) :
    let effects := (w.table.submit now job).1.effects
    Exhibits (w.submit now job) (effects.foldl JobBoard.see board) ∧
      ∀ id s, (effects.foldl JobBoard.see board).snapshot? id = some s →
        s.state.isTerminal = true → board.snapshot? id = some s := by
  have htaken := Workshop.taken_submit hnew now
  obtain ⟨-, started, hadv⟩ := h.shop.table.submit now hnew
  have hnext : (w.table.submit now job).1.nextId = w.table.nextId + 1 :=
    hadv.nextId.trans (h.shop.table.orderly.enter now job).nextId
  obtain ⟨hkept, hends⟩ := h.turn
    (show (w.submit now job).table = { (w.table.submit now job).1 with effects := [] } from rfl)
    (.submit { shop := w, board } now job ⟨rfl, rfl⟩) (h.sound.numbered.tells_submit now job)
    (w.table.closes_submit now job)
    (fun j hj => by
      rw [htaken] at hj
      refine (List.mem_append.mp hj).imp_right fun hj => ?_
      rw [List.mem_singleton.mp hj]
      obtain ⟨s, hs, -⟩ := h.sound.numbered.submit_keeps now hnew
      exact ⟨s, hs⟩)
    fun id hlow hhigh => by
      rw [htaken, List.map_append]
      rcases Nat.lt_succ_iff_lt_or_eq.mp (Nat.lt_of_lt_of_eq hhigh hnext) with hold | rfl
      · exact List.mem_append_left _ (h.counted id hlow hold)
      · exact List.mem_append_right _ List.mem_cons_self
  exact ⟨hkept, fun id s hs hend => (hends id s hs hend).resolve_right fun hin => by cases hin.2⟩

theorem handle (h : Exhibits w board) (now : Nat) {r : JobReport} {rest : List JobReport}
    (hmail : w.mail = r :: rest) :
    let effects := (w.table.report now r).effects
    Exhibits (w.handle now r rest) (effects.foldl JobBoard.see board) ∧
      ∀ id s, (effects.foldl JobBoard.see board).snapshot? id = some s →
        s.state.isTerminal = true → board.snapshot? id = some s ∨ s.id = id ∧ r.Ends β now s := by
  have hcloses : (w.table.report now r).nextId = w.table.nextId ∧
      ∃ ends, JobTable.Closes w.table (w.table.report now r) ends ∧ ∀ s ∈ ends, r.Ends β now s := by
    cases r with
    | progressed id percent description =>
      exact ⟨(h.shop.table.progress id percent description).2.nextId, [],
        w.table.closes_progress id percent description, fun _ hs => (List.not_mem_nil hs).elim⟩
    | finished id outcome =>
      have howes := h.shop.owes.perm (Workshop.owed_handled
        (show w.mail = [] ++ .finished id outcome :: rest from hmail)).symm
      obtain ⟨⟨lock, e, he, hrun, -⟩, -⟩ :=
        (howes.running id).mp (by simp [JobReport.finished?])
      obtain ⟨started, -, hadv⟩ := h.shop.table.finish he hrun now outcome
      refine ⟨hadv.nextId, _, JobTable.closes_finish he hrun now outcome, fun s hs => ?_⟩
      rw [List.mem_singleton.mp hs, ← JobTable.job?_id he]
      exact .finished outcome (h.unharmed e (List.mem_of_find?_eq_some he))
    | lockTimedOut id =>
      obtain ⟨ends, hcloses, hends⟩ := h.shop.table.closes_lockTimedOut now id
      obtain ⟨-, ended, hadv, -⟩ := h.shop.table.timeout now id
      refine ⟨hadv.nextId, ends, hcloses, fun s hs => ?_⟩
      obtain ⟨e, rfl, lock, rfl⟩ := hends s hs
      exact .timedOut e lock
  obtain ⟨hnext, ends, hcloses, hends⟩ := hcloses
  obtain ⟨hkept, hshown⟩ := h.turn
    (show (w.handle now r rest).table = { w.table.report now r with effects := [] } from rfl)
    (.handle { shop := w, board } now [] rest r ⟨rfl, rfl⟩ hmail)
    (h.sound.numbered.tells_report now r) hcloses (fun j hj => .inl hj)
    fun id hlow hhigh => h.counted id hlow (Nat.lt_of_lt_of_eq hhigh hnext)
  exact ⟨hkept, fun id s hs hend =>
    (hshown id s hs hend).imp_right fun hin => ⟨hin.1, hends s hin.2⟩⟩

end Exhibits

end Switchboard
