import Switchboard.Proofs.Calls.Heeding
import Switchboard.Proofs.Hub.Guards
import Switchboard.Proofs.Hub.Numbers
import Switchboard.Proofs.Hub.Starts

namespace Switchboard

/-- What is expected of the tasks. -/
structure Duties where
  aim : Nat → Outcome → Prop
  owes : Nat → Option Nat

namespace Duties

variable {d d' d'' : Duties} {n n' k : Nat} {aim : Outcome → Prop} {owed : Option Nat}
  {atWork : List Nat}

def assign (d : Duties) (n : Nat) (aim : Outcome → Prop) (owed : Option Nat) : Duties :=
  ⟨Function.update d.aim n aim, Function.update d.owes n owed⟩

@[simp] theorem owes_assign_self (d : Duties) (n : Nat) (aim : Outcome → Prop) (owed : Option Nat) :
    (d.assign n aim owed).owes n = owed := Function.update_self ..

theorem owes_assign_of_ne (d : Duties) (h : k ≠ n) (aim : Outcome → Prop) (owed : Option Nat) :
    (d.assign n aim owed).owes k = d.owes k := Function.update_of_ne h ..

@[simp] theorem aim_assign_self (d : Duties) (n : Nat) (aim : Outcome → Prop) (owed : Option Nat) :
    (d.assign n aim owed).aim n = aim := Function.update_self ..

theorem aim_assign_of_ne (d : Duties) (h : k ≠ n) (aim : Outcome → Prop) (owed : Option Nat) :
    (d.assign n aim owed).aim k = d.aim k := Function.update_of_ne h ..

@[simp] theorem aim_assign_same (d : Duties) (n : Nat) (owed : Option Nat) (k : Nat) :
    (d.assign n (d.aim n) owed).aim k = d.aim k := by simp [assign]

@[simp] theorem assign_same (d : Duties) (n : Nat) : d.assign n (d.aim n) (d.owes n) = d := by
  simp [assign]

/-- Whoever has a number below `n` keeps their duties. -/
def Keeps (n : Nat) (d d' : Duties) : Prop := ∀ k < n, d'.aim k = d.aim k ∧ d'.owes k = d.owes k

theorem keeps_refl (n : Nat) (d : Duties) : Keeps n d d := fun _ _ => ⟨rfl, rfl⟩

theorem Keeps.trans (h : Keeps n d d') (h' : Keeps n' d' d'') (hle : n ≤ n') : Keeps n d d'' :=
  fun k hk =>
    have hlater := h' k (Nat.lt_of_lt_of_le hk hle)
    ⟨hlater.1.trans (h k hk).1, hlater.2.trans (h k hk).2⟩

theorem keeps_assign (d : Duties) (n : Nat) (aim : Outcome → Prop) (owed : Option Nat) :
    Keeps n d (d.assign n aim owed) := fun _ hk =>
  ⟨d.aim_assign_of_ne (Nat.ne_of_lt hk) _ _, d.owes_assign_of_ne (Nat.ne_of_lt hk) _ _⟩

/-- The end of every job at work is reported by one task at most, and of no other job. -/
structure Shared (d : Duties) (atWork : List Nat) : Prop where
  atWork : ∀ k id, d.owes k = some id → id ∈ atWork
  apart : ∀ k k' id, d.owes k = some id → d.owes k' = some id → k = k'

theorem Shared.unowed (h : d.Shared atWork) : (d.assign n aim none).Shared atWork := by
  have hold : ∀ {k id}, (d.assign n aim none).owes k = some id → d.owes k = some id := by
    intro k id hk
    by_cases hkn : k = n
    · simp [hkn] at hk
    · rwa [d.owes_assign_of_ne hkn] at hk
  exact ⟨fun k id hk => h.atWork k id (hold hk),
    fun k k' id hk hk' => h.apart k k' id (hold hk) (hold hk')⟩

/-- Who has reported owes nothing more, and nobody else has to report that job. -/
theorem Shared.reported {id : Nat} (h : d.Shared atWork) (hk : d.owes k = some id) :
    (d.assign k aim none).Shared (atWork.erase id) := by
  refine ⟨fun k' id' hk' => ?_, h.unowed.apart⟩
  by_cases hkk : k' = k
  · simp [hkk] at hk'
  · rw [d.owes_assign_of_ne hkk] at hk'
    refine (List.mem_erase_of_ne ?_).mpr (h.atWork k' id' hk')
    rintro rfl
    exact hkk (h.apart k' k id' hk' hk)

theorem Shared.hired {id : Nat} (h : d.Shared atWork) (hid : id ∉ atWork) :
    (d.assign n aim (some id)).Shared (atWork ++ [id]) := by
  have hcases : ∀ {k id'}, (d.assign n aim (some id)).owes k = some id' →
      k = n ∧ id' = id ∨ d.owes k = some id' := by
    intro k id' hk
    by_cases hkn : k = n
    · rw [hkn, owes_assign_self] at hk
      exact .inl ⟨hkn, (Option.some.inj hk).symm⟩
    · rw [d.owes_assign_of_ne hkn] at hk
      exact .inr hk
  refine ⟨fun k id' hk => ?_, fun k k' id' hk hk' => ?_⟩
  · rcases hcases hk with ⟨-, rfl⟩ | hold
    · exact List.mem_append_right _ List.mem_cons_self
    · exact List.mem_append_left _ (h.atWork k id' hold)
  · rcases hcases hk with ⟨rfl, rfl⟩ | hold <;> rcases hcases hk' with ⟨rfl, heq⟩ | hold'
    · rfl
    · exact absurd (h.atWork k' _ hold') hid
    · exact absurd (heq ▸ h.atWork k _ hold) hid
    · exact h.apart k k' id' hold hold'

end Duties

namespace Hub

/-- Every task meets its aim, as long as it is told of branches that have happened, and whoever is
done has met it. What is expected of a thread is what happens on it. -/
structure Crew (s : Hub) (x : Exchange) (b : Begun) (d : Duties) : Prop where
  exchange : s.exchange = x
  numbered : s.Numbered
  heeds : ∀ t ∈ s.tasks, Heeds x (d.aim t.id) b (d.owes t.id) t.routine
  ended : ∀ e ∈ s.ended, d.aim e.1 e.2
  threads : ∀ task name args context, (task, name, args, context) ∈ b.threads →
    task < s.nextNumber ∧
      ∀ outcome, d.aim task outcome → Happens x (.thread name args context outcome)

variable {s s' : Hub} {x : Exchange} {b b' : Begun} {d : Duties} {k : Nat} {owed : Option Nat}
  {atWork : List Nat}

namespace Crew

theorem same (hc : s.Crew x b d) (hexchange : s'.exchange = s.exchange)
    (htasks : s'.tasks.map Task.bare = s.tasks.map Task.bare) (hended : s'.ended = s.ended)
    (hnumber : s.nextNumber ≤ s'.nextNumber) : s'.Crew x b d where
  exchange := hexchange.trans hc.exchange
  numbered := by
    refine ⟨fun t ht => ?_, fun e he => ?_⟩
    · obtain ⟨t', ht', hid, -⟩ := mem_of_bare_eq htasks ht
      exact hid ▸ Nat.lt_of_lt_of_le (hc.numbered.tasks t' ht') hnumber
    · exact Nat.lt_of_lt_of_le (hc.numbered.ended e (hended ▸ he)) hnumber
  heeds t ht := by
    obtain ⟨t', ht', hid, hroutine, -⟩ := mem_of_bare_eq htasks ht
    rw [← hid, ← hroutine]
    exact hc.heeds t' ht'
  ended e he := hc.ended e (hended ▸ he)
  threads task name args context h :=
    (hc.threads task name args context h).imp_left fun hlt => Nat.lt_of_lt_of_le hlt hnumber

theorem of_bare (hc : s.Crew x b d) (hbare : s'.bare = s.bare) (hended : s'.ended = s.ended) :
    s'.Crew x b d := by
  have htasks := congrArg Hub.tasks hbare
  have hnumber := congrArg Hub.nextNumber hbare
  exact hc.same (exchange_of_bare hbare) htasks hended (Nat.le_of_eq hnumber.symm)

theorem begin (hc : s.Crew x b d) (h : b.Within b')
    (hthreads : ∀ task name args context, (task, name, args, context) ∈ b'.threads →
      (task, name, args, context) ∈ b.threads ∨ task < s.nextNumber ∧
        ∀ outcome, d.aim task outcome → Happens x (.thread name args context outcome)) :
    s.Crew x b' d :=
  { hc with
    heeds := fun t ht => (hc.heeds t ht).mono h
    threads := fun task name args context hmem =>
      (hthreads task name args context hmem).elim (hc.threads task name args context) id }

theorem enlist (hc : s.Crew x b d) {routine : Routine Outcome} {aim : Outcome → Prop}
    (h : Heeds x aim b owed routine) (fallback : Option (Token × Routine Outcome)) :
    (s.enlist routine fallback).Crew x b (d.assign s.nextNumber aim owed) := by
  have hkeeps := d.keeps_assign s.nextNumber aim owed
  refine ⟨hc.exchange, ?_, fun t ht => ?_, fun e he => ?_, fun task name args context hmem => ?_⟩
  · exact (hc.numbered.spawn routine fallback).of_bare (bare_spawn s routine fallback).symm
      (ended_spawn s routine fallback).symm
  · rcases List.mem_append.mp ht with ht | ht
    · obtain ⟨haim, howes⟩ := hkeeps t.id (hc.numbered.tasks t ht)
      rw [haim, howes]
      exact hc.heeds t ht
    · rw [List.mem_singleton.mp ht]
      simpa using h
  · rw [(hkeeps e.1 (hc.numbered.ended e he)).1]
    exact hc.ended e he
  · obtain ⟨hlt, haim⟩ := hc.threads task name args context hmem
    refine ⟨Nat.lt_succ_of_lt hlt, fun outcome => ?_⟩
    rw [(hkeeps task hlt).1]
    exact haim outcome

theorem spawn (hc : s.Crew x b d) {routine : Routine Outcome} {aim : Outcome → Prop}
    (h : Heeds x aim b owed routine) (fallback : Option (Token × Routine Outcome)) :
    (s.spawn routine fallback).2.Crew x b (d.assign s.nextNumber aim owed) :=
  (hc.enlist h fallback).of_bare (bare_spawn s routine fallback) (ended_spawn s routine fallback)

theorem goOn (hc : s.Crew x b d) {routine : Routine Outcome}
    (h : ∀ t ∈ s.tasks, t.id = k → Heeds x (d.aim k) b owed routine) :
    (s.goOn k routine).Crew x b (d.assign k (d.aim k) owed) := by
  refine ⟨hc.exchange, hc.numbered.goOn k routine, fun t' ht' => ?_, fun e he => ?_,
    fun task name args context hmem => ?_⟩
  · obtain ⟨t, ht, hid, -, hroutine⟩ := mem_goOn ht'
    rw [hroutine, d.aim_assign_same]
    split
    next heq =>
      rw [heq, Duties.owes_assign_self]
      exact h t ht (hid.trans heq)
    next hne =>
      rw [d.owes_assign_of_ne hne, ← hid]
      exact hc.heeds t ht
  · rw [d.aim_assign_same]
    exact hc.ended e he
  · rw [d.aim_assign_same]
    exact hc.threads task name args context hmem

theorem dropTask (hc : s.Crew x b d) (k : Nat) : (s.dropTask k).Crew x b d :=
  { hc with
    numbered := hc.numbered.dropTask k
    heeds := fun t ht => hc.heeds t (List.mem_filter.mp ht).1 }

theorem finish (hc : s.Crew x b d) (hk : k < s.nextNumber) {outcome : Outcome}
    (h : d.aim k outcome) : (s.finishTask k outcome).Crew x b d := by
  have hdropped := hc.dropTask k
  have hdone : Crew { s.dropTask k with ended := (k, outcome) :: s.ended } x b d :=
    { hdropped with
      numbered := ⟨hdropped.numbered.tasks, List.forall_mem_cons.mpr ⟨hk, hdropped.numbered.ended⟩⟩
      ended := List.forall_mem_cons.mpr ⟨h, hdropped.ended⟩ }
  exact hdone.of_bare (bare_wakeAt _ _) (ended_wakeAt _ _)

/-- Who is there keeps their duties when the hub does what the table wants, and the task of a job
that is started owes a report. -/
theorem apply (hc : s.Crew x b d) (hx : x.registry.Common) (hd : d.Shared atWork)
    (effect : JobEffect JobBody)
    (hstart : ∀ job, effect.started? = some job → job ∈ b.jobs ∧ job.1 ∉ atWork) :
    ∃ d', d.Keeps s.nextNumber d' ∧
      d'.Shared (atWork ++ effect.started?.toList.map Prod.fst) ∧
      (s.apply effect).Crew x b d' ∧ s.nextNumber ≤ (s.apply effect).nextNumber := by
  have hspawned : ∀ routine fallback, s.nextNumber ≤ (s.spawn routine fallback).2.nextNumber :=
    fun routine fallback =>
      have hnumber := congrArg Hub.nextNumber (bare_spawn s routine fallback)
      Nat.le_of_lt (Nat.lt_of_lt_of_eq (Nat.lt_succ_self _) hnumber.symm)
  have haside : ∀ {s' : Hub}, effect.started? = none → s'.Crew x b d →
      s.nextNumber ≤ s'.nextNumber → ∃ d', d.Keeps s.nextNumber d' ∧
        d'.Shared (atWork ++ effect.started?.toList.map Prod.fst) ∧ s'.Crew x b d' ∧
        s.nextNumber ≤ s'.nextNumber := by
    intro s' hnone hc' hle
    refine ⟨d, Duties.keeps_refl _ d, ?_, hc', hle⟩
    simpa [hnone] using hd
  cases effect with
  | publish event => exact haside rfl (hc.same rfl rfl rfl (Nat.le_refl _)) (Nat.le_refl _)
  | log record => exact haside rfl (hc.same rfl rfl rfl (Nat.le_refl _)) (Nat.le_refl _)
  | reveal snapshot =>
    have hshown : Crew { s with board := s.board.reveal snapshot } x b d :=
      hc.same rfl rfl rfl (Nat.le_refl _)
    have hnumber := congrArg Hub.nextNumber
      (bare_wakeWatchers { s with board := s.board.reveal snapshot } snapshot.id)
    exact haside rfl (hshown.of_bare (bare_wakeWatchers _ _) (ended_wakeAt _ _))
      (Nat.le_of_eq hnumber.symm)
  | conceal id =>
    have hshown : Crew { s with board := s.board.conceal id } x b d :=
      hc.same rfl rfl rfl (Nat.le_refl _)
    have hnumber := congrArg Hub.nextNumber
      (bare_wakeWatchers { s with board := s.board.conceal id } id)
    exact haside rfl (hshown.of_bare (bare_wakeWatchers _ _) (ended_wakeAt _ _))
      (Nat.le_of_eq hnumber.symm)
  | start id droppable body =>
    obtain ⟨hbody, hid⟩ := hstart (id, body) rfl
    refine ⟨_, d.keeps_assign s.nextNumber (fun _ => True) (some id), hd.hired hid, ?_,
      hspawned _ _⟩
    have hjob : Heeds x (fun _ => True) b (some id) (s.exchange.runJob id body) := by
      rw [hc.exchange]
      exact .runJob hx (fun _ => trivial) hbody
    exact hc.spawn hjob _
  | armTimer id ms =>
    refine ⟨_, d.keeps_assign s.nextNumber (fun _ => True) none, ?_, ?_, hspawned _ _⟩
    · simpa [JobEffect.started?] using hd.unowed
    · have htimer : Heeds x (fun _ => True) b none (Exchange.runLockTimer id ms) :=
        .of_modest (fun _ => trivial) (Exchange.common_runLockTimer id ms).modest b none
      exact (hc.spawn htimer none).same rfl rfl rfl (Nat.le_refl _)
  | disarmTimer id =>
    simp only [Hub.apply]
    split
    next => exact haside rfl hc (Nat.le_refl _)
    next task _ =>
      exact haside rfl ((hc.dropTask task).same rfl rfl rfl (Nat.le_refl _)) (Nat.le_refl _)
  | cancel id =>
    have hfired : Crew { s with fired := .job id :: s.fired } x b d :=
      hc.same rfl rfl rfl (Nat.le_refl _)
    have hnumber := congrArg Hub.nextNumber (bare_cancel s (.job id))
    exact haside rfl (hfired.of_bare (bare_cancel s _) (ended_cancel s _))
      (Nat.le_of_eq hnumber.symm)

theorem foldl_apply (effects : List (JobEffect JobBody)) (hc : s.Crew x b d)
    (hx : x.registry.Common) (hd : d.Shared atWork)
    (hstarts : effects.filterMap JobEffect.started? ⊆ b.jobs)
    (hnodup : (atWork ++ (effects.filterMap JobEffect.started?).map Prod.fst).Nodup) :
    ∃ d', d.Keeps s.nextNumber d' ∧
      d'.Shared (atWork ++ (effects.filterMap JobEffect.started?).map Prod.fst) ∧
      (effects.foldl Hub.apply s).Crew x b d' ∧
      s.nextNumber ≤ (effects.foldl Hub.apply s).nextNumber := by
  induction effects generalizing s d atWork with
  | nil => exact ⟨d, Duties.keeps_refl _ d, by simpa using hd, hc, Nat.le_refl _⟩
  | cons effect rest ih =>
    have hsplit : (effect :: rest).filterMap JobEffect.started? =
        effect.started?.toList ++ rest.filterMap JobEffect.started? := by
      cases h : effect.started? <;> simp [h]
    rw [hsplit] at hstarts hnodup ⊢
    rw [List.map_append, ← List.append_assoc] at hnodup ⊢
    obtain ⟨hfirst, hrest⟩ := List.append_subset.mp hstarts
    obtain ⟨d', hkeeps, hd', hc', hle⟩ := hc.apply hx hd effect fun job hjob => by
      rw [hjob] at hfirst hnodup
      refine ⟨hfirst List.mem_cons_self, fun hmem => ?_⟩
      exact (List.nodup_append.mp (List.nodup_append.mp hnodup).1).2.2 job.1 hmem job.1
        (by simp) rfl
    obtain ⟨d'', hkeeps', hd'', hc'', hle'⟩ := ih hc' hd' hrest hnodup
    exact ⟨d'', hkeeps.trans hkeeps' hle, hd'', hc'', Nat.le_trans hle hle'⟩

theorem adopt (hc : s.Crew x b d) (hx : x.registry.Common) (hd : d.Shared atWork)
    {t : JobTable JobBody} (hstarts : t.starts ⊆ b.jobs)
    (hnodup : (atWork ++ t.starts.map Prod.fst).Nodup) :
    ∃ d', d.Keeps s.nextNumber d' ∧ d'.Shared (atWork ++ t.starts.map Prod.fst) ∧
      (s.adopt t).Crew x b d' ∧ s.nextNumber ≤ (s.adopt t).nextNumber :=
  foldl_apply t.effects (s := { s with jobs := { t with effects := [] } })
    (hc.same rfl rfl rfl (Nat.le_refl _)) hx hd hstarts hnodup

end Crew

end Hub

end Switchboard
