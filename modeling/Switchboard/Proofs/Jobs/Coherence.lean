import Switchboard.Proofs.Jobs.Deeds
import Switchboard.Proofs.Jobs.Handover

namespace Switchboard

namespace JobSnapshot

variable {s : JobSnapshot}

/-- What the state of a job says about the other fields of its snapshot. -/
def FitsState (s : JobSnapshot) : Prop :=
  match s.state with
  | .waiting =>
    s.progress = {} ∧ s.result = none ∧ s.error = none ∧ s.timeStarted = none ∧
      s.timeFinished = none
  | .running =>
    s.timeStarted.isSome ∧ s.result = none ∧ s.error = none ∧ s.timeFinished = none
  | .success =>
    s.timeStarted.isSome ∧ s.timeFinished.isSome ∧ s.result.isSome ∧ s.error = none ∧
      s.progress.percent = 100
  | .failed =>
    s.timeFinished.isSome ∧ s.result = none ∧ ∃ error, s.error = some error ∧ error ≠ .aborted ∧
      (s.timeStarted = none → ∃ lock, s.lock = some lock ∧ error = .lockTimeout lock)
  | .aborted => s.timeFinished.isSome ∧ s.result = none ∧ s.error = some .aborted

structure Coherent (s : JobSnapshot) : Prop where
  percent : s.progress.percent ≤ 100
  fits : s.FitsState

def EndedUnstarted (s : JobSnapshot) : Prop :=
  s.state = .aborted ∨
    s.state = .failed ∧ ∃ lock, s.lock = some lock ∧ s.error = some (.lockTimeout lock)

theorem FitsState.waiting (h : s.FitsState) (hs : s.state = .waiting) :
    s.progress = {} ∧ s.result = none ∧ s.error = none ∧ s.timeStarted = none ∧
      s.timeFinished = none := by
  unfold FitsState at h
  rwa [hs] at h

theorem FitsState.running (h : s.FitsState) (hs : s.state = .running) :
    s.timeStarted.isSome ∧ s.result = none ∧ s.error = none ∧ s.timeFinished = none := by
  unfold FitsState at h
  rwa [hs] at h

theorem Coherent.endedUnstarted (h : s.Coherent) (hend : s.state.isTerminal = true)
    (hnone : s.timeStarted = none) : s.EndedUnstarted := by
  have hfits := h.fits
  unfold FitsState at hfits
  cases hs : s.state with
  | waiting | running =>
    rw [hs] at hend
    cases hend
  | success =>
    rw [hs, hnone] at hfits
    cases hfits.1
  | failed =>
    rw [hs] at hfits
    obtain ⟨-, -, error, herror, -, hlock⟩ := hfits
    obtain ⟨lock, hl, rfl⟩ := hlock hnone
    exact .inr ⟨hs, lock, hl, herror⟩
  | aborted => exact .inl hs

/-- Whoever asks for the outcome of a job that has ended gets what its snapshot says. -/
theorem Coherent.outcome (h : s.Coherent) (hend : s.state.isTerminal = true) :
    (s.state = .success ∧ ∃ v, s.result = some v ∧ s.outcome = .ok v) ∨
      (s.state ≠ .success ∧ ∃ error, s.error = some error ∧ s.outcome = .error error) := by
  have hfits := h.fits
  unfold FitsState at hfits
  cases hs : s.state with
  | waiting | running =>
    rw [hs] at hend
    cases hend
  | success =>
    rw [hs] at hfits
    obtain ⟨v, hv⟩ := Option.isSome_iff_exists.mp hfits.2.2.1
    exact .inl ⟨rfl, v, hv, by simp [JobSnapshot.outcome, hs, hv]⟩
  | failed =>
    rw [hs] at hfits
    obtain ⟨-, -, error, herror, -⟩ := hfits
    exact .inr ⟨by simp, error, herror, by simp [JobSnapshot.outcome, hs, herror]⟩
  | aborted =>
    rw [hs] at hfits
    exact .inr ⟨by simp, .aborted, hfits.2.2, by simp [JobSnapshot.outcome, hs, hfits.2.2]⟩

end JobSnapshot

namespace JobEntry

variable {β : Type} {e e' : JobEntry β} {shown : List JobSnapshot} {bodies : List β}

theorem coherent_fresh (now id : Nat) (job : NewJob β) :
    (JobTable.fresh now id job).snapshot.Coherent :=
  ⟨Nat.zero_le _, rfl, rfl, rfl, rfl, rfl⟩

theorem Goes.coherent (h : e.Goes shown bodies e') (hc : e.snapshot.Coherent) :
    e'.snapshot.Coherent := by
  cases h with
  | begins now body hwait =>
    obtain ⟨-, hresult, herror, -, hfinished⟩ := hc.fits.waiting hwait
    exact ⟨hc.percent, rfl, hresult, herror, hfinished⟩
  | reports percent description hrun =>
    have hfits := hc.fits.running hrun
    have hrun' : (e.reported percent description).snapshot.state = .running := hrun
    refine ⟨Nat.max_le.mpr ⟨hc.percent, Nat.min_le_right _ _⟩, ?_⟩
    unfold JobSnapshot.FitsState
    rw [hrun']
    exact hfits
  | asked => exact hc

theorem endState_error {error : CallError} (h : error ≠ .aborted) :
    JobTable.endState (.error error) = .failed := by
  unfold JobTable.endState
  split
  next heq => cases heq
  next heq => exact absurd (Except.error.inj heq) h
  next => rfl

theorem coherent_settled (now : Nat) (outcome : Except CallError Json) (hrun : e.state = .running)
    (hc : e.snapshot.Coherent) : (e.settled now outcome).snapshot.Coherent := by
  obtain ⟨hstarted, hresult, herror, hfinished⟩ := hc.fits.running hrun
  unfold JobEntry.settled
  cases JobTable.settled e.cancelled outcome with
  | ok v => exact ⟨Nat.le_refl 100, hstarted, rfl, rfl, rfl, rfl⟩
  | error error =>
    refine ⟨hc.percent, ?_⟩
    by_cases haborted : error = .aborted
    · subst haborted
      exact ⟨rfl, rfl, rfl⟩
    · dsimp only
      rw [endState_error haborted]
      refine ⟨rfl, rfl, error, rfl, haborted, fun hnone => ?_⟩
      -- it ran, so it may fail with any error, also with one that a timer would give
      have hnone : e.snapshot.timeStarted = none := hnone
      rw [hnone] at hstarted
      cases hstarted

theorem Ends.coherent (h : e.Ends e') (hc : e.snapshot.Coherent) : e'.snapshot.Coherent := by
  cases h with
  | settled now outcome hrun => exact coherent_settled now outcome hrun hc
  | dismissed now hwait =>
    obtain ⟨-, hresult, -⟩ := hc.fits.waiting hwait
    exact ⟨hc.percent, rfl, hresult, rfl⟩
  | timedOut now lock hwait hlock =>
    obtain ⟨-, hresult, -⟩ := hc.fits.waiting hwait
    exact ⟨hc.percent, rfl, hresult, _, rfl, by simp, fun _ => ⟨lock, hlock, rfl⟩⟩

theorem Goes.started_iff (h : e.Goes shown bodies e') :
    e'.snapshot.timeStarted.isSome = true ↔
      e.snapshot.timeStarted.isSome = true ∨ bodies ≠ [] := by
  cases h with
  | begins now body => simp [JobEntry.begun]
  | reports => simp [reported]
  | asked => simp [JobEntry.asked]

theorem Ends.timeStarted (h : e.Ends e') :
    e'.snapshot.timeStarted = e.snapshot.timeStarted := by
  cases h with
  | settled now outcome =>
    unfold JobEntry.settled
    cases JobTable.settled e.cancelled outcome <;> rfl
  | dismissed | timedOut => rfl

end JobEntry

namespace JobTable

variable {β : Type} {t t' : JobTable β} {late begun : List Nat} {shown : List JobSnapshot}

/-- Every snapshot in the table, and every one that was `shown`, is coherent. The jobs that have
`begun` are those with a start time. -/
structure Candid (t : JobTable β) (begun : List Nat) (shown : List JobSnapshot) : Prop where
  low : ∀ id ∈ begun, id < t.nextId
  entries : ∀ id e, t.job? id = some e →
    e.snapshot.Coherent ∧ (e.snapshot.timeStarted.isSome = true ↔ id ∈ begun)
  coherent : ∀ s ∈ shown, s.Coherent ∧ s.id < t.nextId
  ended : ∀ s ∈ shown, s.state.isTerminal = true →
    (s.timeStarted.isSome = true ↔ s.id ∈ begun) ∧
      ∀ e, t.job? s.id = some e → e.state.isTerminal = true

theorem candid_empty (maxRetained : Nat) : Candid ({ maxRetained } : JobTable β) [] [] where
  low _ hid := by cases hid
  entries _ _ he := by cases he
  coherent _ hs := by cases hs
  ended _ hs := by cases hs

theorem Candid.entered {job : NewJob β} {now : Nat} (h : Candid t begun shown)
    (hnew : Entered t t' (fresh now t.nextId job)) :
    Candid t' begun (shown ++ [(fresh now t.nextId job).snapshot]) where
  low id hid := hnew.nextId ▸ Nat.lt_succ_of_lt (h.low id hid)
  entries id e he := by
    rw [hnew.job?] at he
    split at he
    next heq =>
      cases he
      -- the number is new, so nothing was begun under it
      have hnot : t.nextId ∉ begun := fun hid => Nat.lt_irrefl _ (h.low _ hid)
      exact ⟨JobEntry.coherent_fresh now t.nextId job, fun hsome => (by cases hsome),
        fun hid => absurd (heq ▸ hid) hnot⟩
    next => exact h.entries id e he
  coherent s hs := by
    rw [hnew.nextId]
    rcases List.mem_append.mp hs with hs | hs
    · exact ⟨(h.coherent s hs).1, Nat.lt_succ_of_lt (h.coherent s hs).2⟩
    · cases List.mem_singleton.mp hs
      exact ⟨JobEntry.coherent_fresh now t.nextId job, Nat.lt_succ_self _⟩
  ended s hs hend := by
    rcases List.mem_append.mp hs with hs | hs
    · refine ⟨(h.ended s hs hend).1, fun e he => ?_⟩
      rw [hnew.job?, if_neg (Nat.ne_of_lt (h.coherent s hs).2)] at he
      exact (h.ended s hs hend).2 e he
    · cases List.mem_singleton.mp hs
      cases hend

theorem Candid.open_id (h : Candid t begun shown) {id : Nat} {e : JobEntry β}
    (he : t.job? id = some e) (hopen : e.state.isTerminal = false) {s : JobSnapshot}
    (hs : s ∈ shown) (hend : s.state.isTerminal = true) : s.id ≠ id := by
  rintro rfl
  have hended := (h.ended s hs hend).2 e he
  rw [hopen] at hended
  cases hended

theorem Candid.goes {id : Nat} {e e' : JobEntry β} {more : List JobSnapshot} {bodies : List β}
    (h : Candid t begun shown) (hi : t.InOrder late) (he : t.job? id = some e)
    (hgoes : e.Goes more bodies e') (hsame : SameBut t t' id e') :
    Candid t' (begun ++ bodies.map fun _ => id) (shown ++ more) := by
  have hmem : ∀ j, (j ∈ begun ++ bodies.map fun _ => id) ↔ j ∈ begun ∨ j = id ∧ bodies ≠ [] := by
    intro j
    rw [List.mem_append, List.mem_map]
    refine or_congr_right ⟨?_, ?_⟩
    · rintro ⟨body, hbody, rfl⟩
      exact ⟨rfl, List.ne_nil_of_mem hbody⟩
    · rintro ⟨rfl, hne⟩
      obtain ⟨body, hbody⟩ := List.exists_mem_of_ne_nil bodies hne
      exact ⟨body, hbody, rfl⟩
  have hlow := hi.low_of_job? he
  obtain ⟨hcoherent, hstarted⟩ := h.entries id e he
  obtain ⟨hopen, hopen'⟩ := hgoes.unfinished
  refine ⟨fun j hj => ?_, fun j x hx => ?_, fun s hs => ?_, fun s hs hend => ?_⟩
  · rw [hsame.nextId]
    rcases (hmem j).mp hj with hj | ⟨rfl, -⟩
    · exact h.low j hj
    · exact hlow
  · rw [hsame.job?] at hx
    rw [hmem]
    split at hx
    next heq =>
      cases hx
      subst heq
      refine ⟨hgoes.coherent hcoherent, ?_⟩
      rw [hgoes.started_iff, hstarted]
      simp
    next hne => simpa [hne] using h.entries j x hx
  · rw [hsame.nextId]
    rcases List.mem_append.mp hs with hs | hs
    · exact h.coherent s hs
    · obtain rfl := hgoes.shown_is s hs
      have hid : e'.snapshot.id = id := hgoes.id.trans (job?_id he)
      exact ⟨hgoes.coherent hcoherent, hid.symm ▸ hlow⟩
  · rcases List.mem_append.mp hs with hs | hs
    · have hne := h.open_id he hopen hs hend
      rw [hmem, hsame.job?, if_neg hne]
      simpa [hne] using h.ended s hs hend
    · obtain rfl := hgoes.shown_is s hs
      cases hopen'.symm.trans hend

theorem Candid.ends {id : Nat} {e e' : JobEntry β} (h : Candid t begun shown)
    (hi : t.InOrder late) (he : t.job? id = some e) (hends : e.Ends e')
    (hsame : SameBut t t' id e') : Candid t' begun (shown ++ [e'.snapshot]) := by
  have hlow := hi.low_of_job? he
  have hid : e'.snapshot.id = id := hends.sameJob.id.trans (job?_id he)
  obtain ⟨hcoherent, hstarted⟩ := h.entries id e he
  refine ⟨fun j hj => hsame.nextId ▸ h.low j hj, fun j x hx => ?_, fun s hs => ?_,
    fun s hs hend => ?_⟩
  · rw [hsame.job?] at hx
    split at hx
    next heq =>
      cases hx
      exact ⟨hends.coherent hcoherent, by rw [hends.timeStarted, heq, hstarted]⟩
    next => exact h.entries j x hx
  · rw [hsame.nextId]
    rcases List.mem_append.mp hs with hs | hs
    · exact h.coherent s hs
    · cases List.mem_singleton.mp hs
      exact ⟨hends.coherent hcoherent, hid.symm ▸ hlow⟩
  · rcases List.mem_append.mp hs with hs | hs
    · rw [hsame.job?, if_neg (h.open_id he hends.unfinished hs hend)]
      exact h.ended s hs hend
    · cases List.mem_singleton.mp hs
      refine ⟨by rw [hends.timeStarted, hid, hstarted], fun x hx => ?_⟩
      rw [hid, hsame.job?, if_pos rfl] at hx
      cases hx
      exact hends.terminal

theorem Candid.forgets {gone : List Nat} (h : Candid t begun shown) (hf : Forgets t t' gone) :
    Candid t' begun shown := by
  have hkept : ∀ {id e}, t'.job? id = some e → t.job? id = some e := by
    intro id e he
    rw [hf.job?] at he
    split at he
    next => cases he
    next => exact he
  refine ⟨fun id hid => hf.nextId ▸ h.low id hid, fun id e he => h.entries id e (hkept he),
    fun s hs => hf.nextId ▸ h.coherent s hs, fun s hs hend => ?_⟩
  exact ⟨(h.ended s hs hend).1, fun e he => (h.ended s hs hend).2 e (hkept he)⟩

theorem Candid.deeds (hd : Deeds t late t') (h : Candid t begun shown) (hi : t.InOrder [])
    (hsettled : t.effects = []) :
    Candid t' (begun ++ t'.starts.map Prod.fst) (shown ++ t'.reveals) := by
  induction hd with
  | nothing => simpa [starts, reveals, hsettled] using h
  | aside _ haside ih =>
    rw [haside.starts, haside.reveals]
    refine ⟨fun id hid => haside.nextId ▸ ih.low id hid, fun id e he => ?_,
      fun s hs => haside.nextId ▸ ih.coherent s hs, fun s hs hend => ?_⟩
    · exact ih.entries id e (haside.job? id ▸ he)
    · rw [haside.job?]
      exact ih.ended s hs hend
  | entered _ now job hnew hshown hstarts ih =>
    rw [hstarts, hshown, ← List.append_assoc]
    exact ih.entered hnew
  | goes hd he hgoes hsame hshown hstarts ih =>
    rw [hstarts, hshown, List.map_append, List.map_map, ← List.append_assoc, ← List.append_assoc]
    exact ih.goes (hi.deeds hd) he hgoes hsame
  | ended hd he hends hsame hshown hstarts ih =>
    rw [hstarts, hshown, ← List.append_assoc]
    exact ih.ends (hi.deeds hd) he hends hsame
  | retired hd ih =>
    obtain ⟨gone, hforgets, -⟩ := retire_forgets (hi.deeds hd).remembers
    rw [hforgets.starts, reveals_retire]
    exact ih.forgets hforgets

end JobTable

namespace Workshop

variable {β : Type} {w : Workshop β} {maxRetained : Nat} {going : Bool}
  {effects : List (JobEffect β)} {s : JobSnapshot}

theorem Annals.candid (h : Annals maxRetained going effects w) :
    w.table.Candid (w.started.map Prod.fst) (effects.filterMap JobEffect.revealed?) := by
  refine h.invariant (P := fun effects t started =>
    t.Candid (started.map Prod.fst) (effects.filterMap JobEffect.revealed?)) ?_ ?_
  · exact JobTable.candid_empty maxRetained
  · intro effects t started t' hc hsound hsettled hdeeds
    rw [List.map_append, List.filterMap_append]
    have hlater := hc.deeds hdeeds hsound.inOrder hsettled
    exact ⟨hlater.low, hlater.entries, hlater.coherent, hlater.ended⟩

theorem Annals.truthful (h : Annals maxRetained going effects w)
    (hs : s ∈ w.table.snapshots ∨ s ∈ effects.filterMap JobEffect.revealed?) :
    s.Coherent ∧ (s.state.isTerminal = true →
      (s.timeStarted.isSome = true ↔ s.id ∈ w.started.map Prod.fst)) := by
  have hcandid := h.candid
  rcases hs with hs | hs
  · obtain ⟨e, hmem, rfl⟩ := List.mem_map.mp hs
    obtain ⟨hcoherent, hstarted⟩ :=
      hcandid.entries e.id e (JobTable.job?_of_mem h.inOrder.sorted hmem)
    exact ⟨hcoherent, fun _ => hstarted⟩
  · exact ⟨(hcandid.coherent s hs).1, fun hend => (hcandid.ended s hs hend).1⟩

/-- In every run, also when the jobs were stopped, every snapshot that the table has or that was
shown fits its state. A job that has ended was started exactly if its snapshot has a start time, and
otherwise was aborted or timed out waiting for its lock. What comes of a job that has ended is what
its snapshot says. -/
theorem snapshots_fit_their_states (h : Annals maxRetained going effects w)
    (hs : s ∈ w.table.snapshots ∨ s ∈ effects.filterMap JobEffect.revealed?) :
    s.Coherent ∧
      (s.state.isTerminal = true →
        (s.timeStarted.isSome = true ↔ s.id ∈ w.started.map Prod.fst) ∧
        (s.timeStarted = none → s.EndedUnstarted) ∧
        ((∃ v, s.outcome = .ok v) ↔ s.state = .success) ∧
        (∀ v, s.outcome = .ok v → s.result = some v) ∧
        ∀ error, s.outcome = .error error → s.error = some error) := by
  obtain ⟨hcoherent, hstarted⟩ := h.truthful hs
  refine ⟨hcoherent, fun hend => ⟨hstarted hend, hcoherent.endedUnstarted hend, ?_⟩⟩
  rcases hcoherent.outcome hend with ⟨hstate, v, hv, houtcome⟩ | ⟨hstate, error, herror, houtcome⟩
  · simp [houtcome, hstate, hv]
  · simp [houtcome, hstate, herror]

/-- Two jobs come for one lock, and the second times out while it waits. -/
def delayed : Workshop Nat :=
  ((((opened 1).submit 0 (lockedJob "L" 10)).submit 1 (lockedJob "L" 20)).send
    (.lockTimedOut 2)).handle 6 (.lockTimedOut 2) []

theorem snapshots_fit_their_states_of_delayed : ∃ effects s, Annals 1 true effects delayed ∧
    delayed.table.snapshots[1]? = some s ∧ s.state = .failed ∧ s.timeStarted = none ∧
    s.EndedUnstarted ∧ s.id ∉ delayed.started.map Prod.fst := by
  have hnew : Annals 1 true [] (opened 1 : Workshop Nat) := .opened
  have hcome := (hnew.submit 0 (lockedJob "L" 10)).submit 1 (lockedJob "L" 20)
  have hrun := (hcome.timer 2).handle 6 [] [] (.lockTimedOut 2) rfl
  have hlisted : delayed.table.snapshots[1]? = some _ := rfl
  refine ⟨_, _, hrun, hlisted, rfl, rfl, ?_⟩
  obtain ⟨-, hended⟩ := snapshots_fit_their_states (w := delayed) hrun
    (.inl (List.mem_of_getElem? hlisted))
  obtain ⟨hstarted, hunstarted, -⟩ := hended rfl
  exact ⟨hunstarted rfl, fun hmem => by cases hstarted.mpr hmem⟩

end Workshop

end Switchboard
