import Mathlib.Logic.Function.Basic
import Switchboard.Proofs.Hub.Chronicle
import Switchboard.Proofs.Hub.Readers

namespace Switchboard

namespace Token

/-- The number of a token that was made from nothing, or of the first one it was made from. -/
def root? : Token → Option Nat
  | .job _ => none
  | .root n => some n
  | .child _ parent => parent.root?

/-- The token was given before, and not for the end of a call. `dones` has the numbers of those that
were, with the jobs that the calls wait for. -/
def IsCaller (token : Token) (next : Nat) (dones : List (Nat × Nat)) : Prop :=
  ∀ n, token.root? = some n → n < next ∧ ∀ job, (n, job) ∉ dones

variable {token : Token} {next next' : Nat} {dones : List (Nat × Nat)}

theorem IsCaller.mono (h : token.IsCaller next dones) (hle : next ≤ next') :
    token.IsCaller next' dones := fun n hn =>
  ⟨Nat.lt_of_lt_of_le (h n hn).1 hle, (h n hn).2⟩

theorem IsCaller.newDone (h : token.IsCaller next dones) (job : Nat) :
    token.IsCaller (next + 1) ((next, job) :: dones) := by
  intro n hn
  obtain ⟨hlt, hnot⟩ := h n hn
  refine ⟨Nat.lt_succ_of_lt hlt, fun job' hmem => ?_⟩
  rcases List.mem_cons.mp hmem with heq | hmem
  · obtain ⟨rfl, -⟩ := Prod.mk.inj heq
    exact Nat.lt_irrefl _ hlt
  · exact hnot job' hmem

theorem isCancelled_mono {fired fired' : List Token} (hsub : fired ⊆ fired')
    (h : token.isCancelled fired = true) : token.isCancelled fired' = true := by
  induction token with
  | job id => simpa [isCancelled] using hsub (by simpa [isCancelled] using h)
  | root n => simpa [isCancelled] using hsub (by simpa [isCancelled] using h)
  | child n parent ih =>
    simp only [isCancelled, Bool.or_eq_true, List.contains_iff_mem] at h ⊢
    exact h.imp (fun hmem => hsub hmem) ih

end Token

def Action.IsCalm : Action → Prop
  | .now | .sleepUntil _ | .report _ => True
  | _ => False

def Routine.Calm {α : Type} : Routine α → Prop
  | .done _ => True
  | .act action next => action.IsCalm ∧ ∀ reply, (next reply).Calm

def Letter.sender? : Letter → Option Nat
  | .request _ task _ => some task
  | .report _ => none

namespace Hub

variable {s s' : Hub} {mail mail' : List Letter} {h : Chronicle} {dones : List (Nat × Nat)}
  {stage : Nat → CallStage} {busy : Option Nat} {k : Nat}

/-- The stage of the calls of a task is what was heard of it. -/
def Staged (s : Hub) (h : Chronicle) (dones : List (Nat × Nat)) (task : Nat) : CallStage → Prop
  | .idle => h.caller? task = none
  | .called caller => h.caller? task = some caller
  | .answered caller job => h.caller? task = none ∧ ∃ isNew, h.Answered task caller job isNew
  | .named caller job done => h.caller? task = none ∧
      (∃ isNew, h.Answered task caller job isNew) ∧ ∃ n, done = .root n ∧ (n, job) ∈ dones
  | .guarded job done => h.caller? task = none ∧ job < s.jobs.nextId ∧
      ∃ n, done = .root n ∧ (n, job) ∈ dones
  | .closing job done => h.caller? task = none ∧ s.Dealt job ∧
      ∃ n, done = .root n ∧ (n, job) ∈ dones

/-- A task goes by the rules with what it has left to do. -/
def Minds (s : Hub) (h : Chronicle) (dones : List (Nat × Nat)) (task : Nat) (stage : CallStage)
    (routine : Routine Outcome) : Prop :=
  ∃ own, routine.Lawful own stage ∧ (∀ token ∈ own, token.IsCaller s.nextNumber dones) ∧
    s.Staged h dones task stage

/-- What a guard has left to do. -/
inductive Guarding (s : Hub) (ward : Ward) : Routine Outcome → Prop where
  | waits : Guarding s ward (Exchange.runGuard ward.job ward.caller ward.done)
  | asks {next : Except CallError (Except CallError Unit) → Routine Outcome}
      (hcancelled : s.isCancelled ward.caller = true)
      (hnext : ∀ reply, next reply = .done (.returned .null)) :
      Guarding s ward (.act (.ask (.abort ward.job)) next)
  | ended (hdealt : s.Dealt ward.job) : Guarding s ward (.done (.returned .null))

/-- A guard is at its post, unless there is nothing left to abort. -/
structure Posted (s : Hub) (h : Chronicle) (dones : List (Nat × Nat)) (busy : Option Nat)
    (task : Nat) (ward : Ward) : Prop where
  number : ward.guard < s.nextNumber
  answered : ∃ isNew, h.Answered task ward.caller ward.job isNew
  caller : ward.caller.IsCaller s.nextNumber dones
  done : ∃ n, ward.done = .root n ∧ (n, ward.job) ∈ dones
  there : (∃ t ∈ s.tasks, t.id = ward.guard) ∨ s.Dealt ward.job
  keeps : ∀ t ∈ s.tasks, t.id = ward.guard → busy ≠ some t.id → s.Guarding ward t.routine
  steady : ∀ t ∈ s.tasks, t.id = ward.guard → t.fallback = none

/-- A call of a task that was answered puts the job under guard, unless the task is dropped. -/
def Cares (s : Hub) (h : Chronicle) (stage : Nat → CallStage) (task : Nat) (caller : Token)
    (job : Nat) : Prop :=
  .dropped task ∈ h ∨ h.Armed task caller job ∨ ((∃ t ∈ s.tasks, t.id = task) ∧
    (stage task = .answered caller job ∨ ∃ done, stage task = .named caller job done))

structure Posts (s : Hub) (h : Chronicle) (busy : Option Nat) (r : JobRequest) (task : Nat)
    (next : Except CallError r.Reply → Routine Outcome) : Prop where
  number : task < s.nextNumber
  idle : busy ≠ some task
  waits : (∃ t ∈ s.tasks, t.id = task ∧ t.routine = .act (.ask r) next) ∨
    (.dropped task ∈ h ∧ ∀ t ∈ s.tasks, t.id ≠ task)
  abort : ∀ job, r = .abort job → h.Blames job

def Times (s : Hub) (stage : Nat → CallStage) (busy : Option Nat) (task : Nat) : Prop :=
  task < s.nextNumber ∧ stage task = .idle ∧
    ∀ t ∈ s.tasks, t.id = task → busy ≠ some t.id → t.routine.Calm

/-- The accounts of a run, with the letters that are under way. Of the task that is busy not all is
known. -/
structure Accounts (s : Hub) (mail : List Letter) (h : Chronicle) (dones : List (Nat × Nat))
    (stage : Nat → CallStage) (busy : Option Nat) : Prop where
  exchange : s.exchange.registry.Lawful
  ids : (s.tasks.map Task.id).Nodup
  bound : ∀ t ∈ s.tasks, t.id < s.nextNumber
  acting : ∀ k, busy = some k → k < s.nextNumber
  fresh : ∀ k, s.nextNumber ≤ k → stage k = .idle ∧ h.caller? k = none
  minds : ∀ t ∈ s.tasks, busy ≠ some t.id → s.Minds h dones t.id (stage t.id) t.routine
  fallbacks : ∀ t ∈ s.tasks, ∀ f, t.fallback = some f →
    ∃ id, f = (.job id, Exchange.reportDropped id)
  senders : (mail.filterMap Letter.sender?).Nodup
  letters : ∀ r task next, .request r task next ∈ mail → s.Posts h busy r task next
  timers : ∀ timer ∈ s.lockTimers, s.Times stage busy timer.2
  asked : ∀ task job, .asked task job ∈ h → h.Blames job
  wards : ∀ task ward, .armed task ward ∈ h → s.Posted h dones busy task ward
  fired : ∀ token ∈ s.fired, (∃ job, token = .job job ∧ h.Blames job) ∨
    ∃ n job, token = .root n ∧ (n, job) ∈ dones ∧ s.Dealt job
  numbered : (dones.map Prod.fst).Nodup ∧ ∀ d ∈ dones, d.1 < s.nextNumber
  known : ∀ task caller job isNew, h.Answered task caller job isNew → job < s.jobs.nextId
  cares : ∀ task caller job isNew, h.Answered task caller job isNew →
    s.Cares h stage task caller job

/-- The hub has changed, but its tasks are where they were, and what was dealt with still is. -/
structure Grows (s s' : Hub) : Prop where
  exchange : s'.exchange = s.exchange
  tasks : s'.tasks.map Task.bare = s.tasks.map Task.bare
  number : s.nextNumber ≤ s'.nextNumber
  nextId : s.jobs.nextId ≤ s'.jobs.nextId
  fired : s.fired ⊆ s'.fired
  past : ∀ job, s.jobs.roll.Past job → s'.jobs.roll.Past job

theorem mem_of_bare_eq (h : s'.tasks.map Task.bare = s.tasks.map Task.bare) {t' : Task}
    (ht : t' ∈ s'.tasks) : ∃ t ∈ s.tasks, t.id = t'.id ∧ t.routine = t'.routine ∧
      t.fallback = t'.fallback := by
  have hmem : t'.bare ∈ s.tasks.map Task.bare := h ▸ List.mem_map_of_mem ht
  obtain ⟨t, ht, heq⟩ := List.mem_map.mp hmem
  have hid := congrArg Task.id heq
  have hroutine := congrArg Task.routine heq
  have hfallback := congrArg Task.fallback heq
  exact ⟨t, ht, hid, hroutine, hfallback⟩

theorem Grows.dealt (hg : Grows s s') {job : Nat} (hd : s.Dealt job) : s'.Dealt job :=
  hd.imp (fun hmem => hg.fired hmem) (hg.past job)

theorem Grows.staged (hg : Grows s s') {task : Nat} {st : CallStage}
    (hs : s.Staged h dones task st) : s'.Staged h dones task st := by
  cases st with
  | guarded job done => exact ⟨hs.1, Nat.lt_of_lt_of_le hs.2.1 hg.nextId, hs.2.2⟩
  | closing job done => exact ⟨hs.1, hg.dealt hs.2.1, hs.2.2⟩
  | _ => exact hs

theorem Grows.minds (hg : Grows s s') {task : Nat} {st : CallStage} {routine : Routine Outcome}
    (hm : s.Minds h dones task st routine) : s'.Minds h dones task st routine := by
  obtain ⟨own, hlawful, hown, hstaged⟩ := hm
  exact ⟨own, hlawful, fun token hmem => (hown token hmem).mono hg.number, hg.staged hstaged⟩

theorem Guarding.mono {ward : Ward} {routine : Routine Outcome} (hg : s.Guarding ward routine)
    (hfired : s.fired ⊆ s'.fired) (hdealt : s.Dealt ward.job → s'.Dealt ward.job) :
    s'.Guarding ward routine := by
  cases hg with
  | waits => exact .waits
  | asks hcancelled hnext => exact .asks (Token.isCancelled_mono hfired hcancelled) hnext
  | ended hd => exact .ended (hdealt hd)

theorem Grows.posted (hg : Grows s s') {task : Nat} {ward : Ward}
    (hp : s.Posted h dones busy task ward) : s'.Posted h dones busy task ward where
  number := Nat.lt_of_lt_of_le hp.number hg.number
  answered := hp.answered
  caller := hp.caller.mono hg.number
  done := hp.done
  there := by
    refine hp.there.imp (fun ⟨t, ht, hid⟩ => ?_) hg.dealt
    obtain ⟨t', ht', hid', -⟩ := mem_of_bare_eq hg.tasks.symm ht
    exact ⟨t', ht', hid'.trans hid⟩
  keeps t ht hid hidle := by
    obtain ⟨t', ht', hid', hroutine, -⟩ := mem_of_bare_eq hg.tasks ht
    rw [← hroutine]
    exact (hp.keeps t' ht' (hid'.trans hid) (hid' ▸ hidle)).mono hg.fired hg.dealt
  steady t ht hid := by
    obtain ⟨t', ht', hid', -, hfallback⟩ := mem_of_bare_eq hg.tasks ht
    exact hfallback ▸ hp.steady t' ht' (hid'.trans hid)

theorem Grows.posts (hg : Grows s s') {r : JobRequest} {task : Nat}
    {next : Except CallError r.Reply → Routine Outcome} (hp : s.Posts h busy r task next) :
    s'.Posts h busy r task next where
  number := Nat.lt_of_lt_of_le hp.number hg.number
  idle := hp.idle
  waits := by
    refine hp.waits.imp (fun ⟨t, ht, hid, hroutine⟩ => ?_) fun ⟨hdropped, hnone⟩ =>
      ⟨hdropped, fun t ht => ?_⟩
    · obtain ⟨t', ht', hid', hroutine', -⟩ := mem_of_bare_eq hg.tasks.symm ht
      exact ⟨t', ht', hid'.trans hid, hroutine'.trans hroutine⟩
    · obtain ⟨t', ht', hid, -⟩ := mem_of_bare_eq hg.tasks ht
      exact hid ▸ hnone t' ht'
  abort := hp.abort

/-- The accounts stay right as long as there is a reason for every token that is cancelled, and a
task for every letter and every timer. -/
theorem Accounts.carry (ha : s.Accounts mail h dones stage busy) (hg : Grows s s')
    (hsenders : (mail'.filterMap Letter.sender?).Nodup)
    (hletters : ∀ r task next, .request r task next ∈ mail' →
      .request r task next ∈ mail ∨ s'.Posts h busy r task next)
    (htimers : ∀ timer ∈ s'.lockTimers, timer ∈ s.lockTimers ∨ s'.Times stage busy timer.2)
    (hfired : ∀ token ∈ s'.fired, token ∈ s.fired ∨ (∃ job, token = .job job ∧ h.Blames job) ∨
      ∃ n job, token = .root n ∧ (n, job) ∈ dones ∧ s.Dealt job) :
    s'.Accounts mail' h dones stage busy where
  exchange := hg.exchange ▸ ha.exchange
  ids := by
    have hids : s'.tasks.map Task.id = s.tasks.map Task.id := by
      have hmap := congrArg (List.map Task.id) hg.tasks
      rwa [List.map_map, List.map_map] at hmap
    exact hids ▸ ha.ids
  bound t ht := by
    obtain ⟨t', ht', hid, -⟩ := mem_of_bare_eq hg.tasks ht
    exact hid ▸ Nat.lt_of_lt_of_le (ha.bound t' ht') hg.number
  acting k hk := Nat.lt_of_lt_of_le (ha.acting k hk) hg.number
  fresh k hk := ha.fresh k (Nat.le_trans hg.number hk)
  minds t ht hidle := by
    obtain ⟨t', ht', hid, hroutine, -⟩ := mem_of_bare_eq hg.tasks ht
    rw [← hid, ← hroutine]
    exact hg.minds (ha.minds t' ht' (hid ▸ hidle))
  fallbacks t ht := by
    obtain ⟨t', ht', -, -, hfallback⟩ := mem_of_bare_eq hg.tasks ht
    exact hfallback ▸ ha.fallbacks t' ht'
  senders := hsenders
  letters r task next hmem :=
    (hletters r task next hmem).elim (fun hold => hg.posts (ha.letters r task next hold)) id
  timers timer hmem := by
    refine (htimers timer hmem).elim (fun hold => ?_) id
    obtain ⟨hlt, hidle, hcalm⟩ := ha.timers timer hold
    refine ⟨Nat.lt_of_lt_of_le hlt hg.number, hidle, fun t ht hid hbusy => ?_⟩
    obtain ⟨t', ht', hid', hroutine, -⟩ := mem_of_bare_eq hg.tasks ht
    exact hroutine ▸ hcalm t' ht' (hid'.trans hid) (hid' ▸ hbusy)
  asked := ha.asked
  wards task ward hmem := hg.posted (ha.wards task ward hmem)
  fired token hmem := by
    rcases hfired token hmem with hold | hblamed | ⟨n, job, htoken, hdone, hdealt⟩
    · rcases ha.fired token hold with hblamed | ⟨n, job, htoken, hdone, hdealt⟩
      · exact .inl hblamed
      · exact .inr ⟨n, job, htoken, hdone, hg.dealt hdealt⟩
    · exact .inl hblamed
    · exact .inr ⟨n, job, htoken, hdone, hg.dealt hdealt⟩
  numbered := ⟨ha.numbered.1, fun d hd => Nat.lt_of_lt_of_le (ha.numbered.2 d hd) hg.number⟩
  known task caller job isNew hmem :=
    Nat.lt_of_lt_of_le (ha.known task caller job isNew hmem) hg.nextId
  cares task caller job isNew hmem := by
    refine (ha.cares task caller job isNew hmem).imp_right fun hrest => hrest.imp_right ?_
    rintro ⟨⟨t, ht, hid⟩, hstage⟩
    obtain ⟨t', ht', hid', -⟩ := mem_of_bare_eq hg.tasks.symm ht
    exact ⟨⟨t', ht', hid'.trans hid⟩, hstage⟩

theorem Accounts.grow (ha : s.Accounts mail h dones stage busy) (hg : Grows s s')
    (htimers : s'.lockTimers ⊆ s.lockTimers)
    (hfired : ∀ token ∈ s'.fired, token ∈ s.fired ∨ (∃ job, token = .job job ∧ h.Blames job) ∨
      ∃ n job, token = .root n ∧ (n, job) ∈ dones ∧ s.Dealt job) :
    s'.Accounts mail h dones stage busy :=
  ha.carry hg ha.senders (fun _ _ _ hmem => .inl hmem) (fun _ hmem => .inl (htimers hmem)) hfired

theorem Accounts.fewer (ha : s.Accounts mail h dones stage busy) (hsub : mail'.Sublist mail) :
    s.Accounts mail' h dones stage busy :=
  { ha with
    senders := ha.senders.sublist (hsub.filterMap _)
    letters := fun r task next hmem => ha.letters r task next (hsub.subset hmem) }

theorem Accounts.of_bare (ha : s.Accounts mail h dones stage busy) (hbare : s'.bare = s.bare) :
    s'.Accounts mail h dones stage busy := by
  have hexchange := congrArg Hub.exchange hbare
  have hjobs := congrArg Hub.jobs hbare
  have htasks := congrArg Hub.tasks hbare
  have htimers := congrArg Hub.lockTimers hbare
  have hfired := congrArg Hub.fired hbare
  have hnumber := congrArg Hub.nextNumber hbare
  simp only [bare] at hexchange hjobs htasks htimers hfired hnumber
  have hsub : ∀ {α : Type} {l l' : List α}, l' = l → l' ⊆ l := by
    rintro α l l' rfl
    exact List.Subset.refl _
  refine ha.grow ⟨hexchange, htasks, Nat.le_of_eq hnumber.symm, ?_, hsub hfired.symm, ?_⟩
    (hsub htimers) fun token hmem => .inl (hfired ▸ hmem)
  · exact Nat.le_of_eq (congrArg JobTable.nextId hjobs.symm)
  · rw [hjobs]
    exact fun _ hpast => hpast

theorem Accounts.leave (ha : s.Accounts mail h dones stage none) (hk : k < s.nextNumber)
    (hsilent : ∀ r next, .request r k next ∉ mail) : s.Accounts mail h dones stage (some k) :=
  { ha with
    acting := fun k' hk' => Option.some.inj hk' ▸ hk
    minds := fun t ht _ => ha.minds t ht (by simp)
    letters := fun r task next hmem => by
      have hp := ha.letters r task next hmem
      exact ⟨hp.number, fun heq => hsilent r next (Option.some.inj heq ▸ hmem), hp.waits, hp.abort⟩
    timers := fun timer hmem => by
      obtain ⟨hlt, hidle, hcalm⟩ := ha.timers timer hmem
      exact ⟨hlt, hidle, fun t ht hid _ => hcalm t ht hid (by simp)⟩
    wards := fun task ward hmem =>
      { ha.wards task ward hmem with
        keeps := fun t ht hid _ => (ha.wards task ward hmem).keeps t ht hid (by simp) } }

theorem Staged.cons {e : Happening} {st : CallStage}
    (hcaller : Chronicle.caller? k (e :: h) = h.caller? k) (hs : s.Staged h dones k st) :
    s.Staged (e :: h) dones k st := by
  cases st with
  | idle | called caller => exact hcaller.trans hs
  | answered caller job => exact ⟨hcaller.trans hs.1, hs.2.imp fun _ ha => ha.cons e⟩
  | named caller job done =>
    exact ⟨hcaller.trans hs.1, hs.2.1.imp fun _ ha => ha.cons e, hs.2.2⟩
  | guarded job done | closing job done => exact ⟨hcaller.trans hs.1, hs.2⟩

theorem Cares.cons {task job : Nat} {caller : Token} (hc : s.Cares h stage task caller job)
    (e : Happening) : s.Cares (e :: h) stage task caller job := by
  refine hc.imp (List.mem_cons_of_mem e) fun hrest => hrest.imp_left fun hward => ?_
  obtain ⟨ward, hmem, hward⟩ := hward
  exact ⟨ward, List.mem_cons_of_mem e hmem, hward⟩

theorem Accounts.hear (ha : s.Accounts mail h dones stage busy) (e : Happening)
    (hcaller : ∀ k, busy ≠ some k → Chronicle.caller? k (e :: h) = h.caller? k)
    (hasked : ∀ task job, e = .asked task job → Chronicle.Blames (e :: h) job)
    (hward : ∀ task ward, e = .armed task ward → s.Posted (e :: h) dones busy task ward)
    (hanswered : ∀ task job isNew, e = .answered task job isNew →
      ∀ caller, h.caller? task = some caller →
        job < s.jobs.nextId ∧ s.Cares (e :: h) stage task caller job) :
    s.Accounts mail (e :: h) dones stage busy :=
  { ha with
    fresh := fun k hk => by
      refine ⟨(ha.fresh k hk).1, (hcaller k fun heq => ?_).trans (ha.fresh k hk).2⟩
      have hlt := ha.acting k heq
      omega
    minds := fun t ht hidle => by
      obtain ⟨own, hlawful, hown, hstaged⟩ := ha.minds t ht hidle
      exact ⟨own, hlawful, hown, hstaged.cons (hcaller t.id hidle)⟩
    letters := fun r task next hmem => by
      have hp := ha.letters r task next hmem
      exact ⟨hp.number, hp.idle, hp.waits.imp_right (And.imp_left (List.mem_cons_of_mem e)),
        fun job heq => (hp.abort job heq).cons e⟩
    asked := fun task job hmem => by
      rcases List.mem_cons.mp hmem with heq | hmem
      · exact hasked task job heq.symm
      · exact (ha.asked task job hmem).cons e
    wards := fun task ward hmem => by
      rcases List.mem_cons.mp hmem with heq | hmem
      · exact hward task ward heq.symm
      · have hp := ha.wards task ward hmem
        exact { hp with answered := hp.answered.imp fun _ h => h.cons e }
    fired := fun token hmem =>
      (ha.fired token hmem).imp_left fun ⟨job, heq, hb⟩ => ⟨job, heq, hb.cons e⟩
    known := fun task caller job isNew hmem => by
      rcases Chronicle.answered_cons_iff.mp hmem with ⟨heq, hcaller⟩ | hmem
      · exact (hanswered task job isNew heq caller hcaller).1
      · exact ha.known task caller job isNew hmem
    cares := fun task caller job isNew hmem => by
      rcases Chronicle.answered_cons_iff.mp hmem with ⟨heq, hcaller⟩ | hmem
      · exact (hanswered task job isNew heq caller hcaller).2
      · exact (ha.cares task caller job isNew hmem).cons e }

theorem Accounts.restage (ha : s.Accounts mail h dones stage (some k)) (st : CallStage)
    (htimer : ∀ timer ∈ s.lockTimers, timer.2 = k → st = .idle)
    (hcares : ∀ caller job,
      stage k = .answered caller job ∨ (∃ done, stage k = .named caller job done) →
      h.Armed k caller job ∨ st = .answered caller job ∨ ∃ done, st = .named caller job done) :
    s.Accounts mail h dones (Function.update stage k st) (some k) :=
  { ha with
    fresh := fun k' hk' => by
      have hne : k' ≠ k := by
        have hlt := ha.acting k rfl
        omega
      rw [Function.update_of_ne hne]
      exact ha.fresh k' hk'
    minds := fun t ht hidle => by
      rw [Function.update_of_ne fun heq => hidle (congrArg some heq.symm)]
      exact ha.minds t ht hidle
    timers := fun timer hmem => by
      obtain ⟨hlt, hidle, hcalm⟩ := ha.timers timer hmem
      refine ⟨hlt, ?_, hcalm⟩
      by_cases heq : timer.2 = k
      · rw [heq, Function.update_self]
        exact htimer timer hmem heq
      · rw [Function.update_of_ne heq]
        exact hidle
    cares := fun task caller job isNew hmem => by
      rcases ha.cares task caller job isNew hmem with hdropped | harmed | ⟨hthere, hstage⟩
      · exact .inl hdropped
      · exact .inr (.inl harmed)
      · by_cases heq : task = k
        · subst heq
          rcases hcares caller job hstage with harmed | hst
          · exact .inr (.inl harmed)
          · rw [← Function.update_self task st stage] at hst
            exact .inr (.inr ⟨hthere, hst⟩)
        · rw [← Function.update_of_ne heq st stage] at hstage
          exact .inr (.inr ⟨hthere, hstage⟩) }

theorem grows_number (s : Hub) (n : Nat) :
    Grows s ({ s with nextNumber := s.nextNumber + n } : Hub) :=
  ⟨rfl, rfl, Nat.le_add_right _ _, Nat.le_refl _, List.Subset.refl _, fun _ hp => hp⟩

/-- A number is given to a token for the end of a call. -/
theorem Accounts.newDone (ha : s.Accounts mail h dones stage busy) (job : Nat) :
    ({ s with nextNumber := s.nextNumber + 1 } : Hub).Accounts mail h
      ((s.nextNumber, job) :: dones) stage busy := by
  have hg : Grows s { s with nextNumber := s.nextNumber + 1 } :=
    grows_number s 1
  have hgrown := ha.grow hg (List.Subset.refl _) fun token hmem => .inl hmem
  have hmore : ∀ {token : Token} {job' : Nat}, (∃ n, token = .root n ∧ (n, job') ∈ dones) →
      ∃ n, token = .root n ∧ (n, job') ∈ (s.nextNumber, job) :: dones := by
    rintro token job' ⟨n, htoken, hmem⟩
    exact ⟨n, htoken, List.mem_cons_of_mem _ hmem⟩
  exact
    { hgrown with
      minds := fun t ht hidle => by
        obtain ⟨own, hlawful, hown, hstaged⟩ := ha.minds t ht hidle
        refine ⟨own, hlawful, fun token hmem => (hown token hmem).newDone job, ?_⟩
        generalize stage t.id = st at hstaged
        cases st with
        | named caller job' done => exact ⟨hstaged.1, hstaged.2.1, hmore hstaged.2.2⟩
        | guarded job' done | closing job' done => exact ⟨hstaged.1, hstaged.2.1, hmore hstaged.2.2⟩
        | _ => exact hstaged
      wards := fun task ward hmem =>
        { hgrown.wards task ward hmem with
          caller := (ha.wards task ward hmem).caller.newDone job
          done := hmore (ha.wards task ward hmem).done }
      fired := fun token hmem => by
        refine (hgrown.fired token hmem).imp_right fun ⟨n, job', htoken, hdone, hdealt⟩ => ?_
        exact ⟨n, job', htoken, List.mem_cons_of_mem _ hdone, hdealt⟩
      numbered := by
        refine ⟨List.nodup_cons.mpr ⟨fun hmem => ?_, ha.numbered.1⟩, fun d hd => ?_⟩
        · obtain ⟨d, hd, heq⟩ := List.mem_map.mp hmem
          exact absurd (ha.numbered.2 d hd) (by omega)
        · rcases List.mem_cons.mp hd with rfl | hd
          · exact Nat.lt_succ_self _
          · exact Nat.lt_succ_of_lt (ha.numbered.2 d hd) }

theorem Accounts.send (ha : s.Accounts mail h dones stage none) {t : Task} (ht : t ∈ s.tasks)
    {r : JobRequest} {next : Except CallError r.Reply → Routine Outcome}
    (hroutine : t.routine = .act (.ask r) next) (hsilent : ∀ r next, .request r t.id next ∉ mail)
    (habort : ∀ job, r = .abort job → h.Blames job) :
    s.Accounts (mail ++ [.request r t.id next]) h dones stage none := by
  have hnew : t.id ∉ mail.filterMap Letter.sender? := by
    intro hmem
    obtain ⟨l, hl, hsender⟩ := List.mem_filterMap.mp hmem
    cases l with
    | request r' task next' =>
      cases Option.some.inj hsender
      exact hsilent r' next' hl
    | report r' => cases hsender
  exact
    { ha with
      senders := by
        rw [List.filterMap_append]
        refine List.nodup_append.mpr
          ⟨ha.senders, by simp [Letter.sender?], fun a hmem b hb heq => ?_⟩
        rw [List.mem_singleton.mp (show b ∈ [t.id] from hb)] at heq
        exact hnew (heq ▸ hmem)
      letters := fun r' task next' hmem => by
        rcases List.mem_append.mp hmem with hmem | hmem
        · exact ha.letters r' task next' hmem
        · cases List.mem_singleton.mp hmem
          exact ⟨ha.bound t ht, by simp, .inl ⟨t, ht, rfl, hroutine⟩, habort⟩ }

theorem Accounts.sendReport (ha : s.Accounts mail h dones stage busy) (r : JobReport) :
    s.Accounts (mail ++ [.report r]) h dones stage busy :=
  { ha with
    senders := by
      have hnone : [Letter.report r].filterMap Letter.sender? = [] := rfl
      rw [List.filterMap_append, hnone, List.append_nil]
      exact ha.senders
    letters := fun r' task next' hmem => by
      rcases List.mem_append.mp hmem with hmem | hmem
      · exact ha.letters r' task next' hmem
      · cases List.mem_singleton.mp hmem }

theorem mem_goOn {routine : Routine Outcome} {t' : Task} (ht : t' ∈ (s.goOn k routine).tasks) :
    ∃ t ∈ s.tasks, t.id = t'.id ∧ t.fallback = t'.fallback ∧
      t'.routine = if t'.id = k then routine else t.routine := by
  obtain ⟨t, hmem, rfl⟩ := List.mem_map.mp ht
  refine ⟨t, hmem, ?_⟩
  by_cases hid : t.id = k <;> simp [hid]

theorem exists_goOn {t : Task} (ht : t ∈ s.tasks) (k : Nat) (routine : Routine Outcome) :
    ∃ t' ∈ (s.goOn k routine).tasks, t'.id = t.id ∧ (t.id ≠ k → t'.routine = t.routine) := by
  refine ⟨_, List.mem_map_of_mem ht, ?_⟩
  by_cases hid : t.id = k <;> simp [hid]

theorem Accounts.goOn (ha : s.Accounts mail h dones stage (some k)) {routine : Routine Outcome}
    (hgoes : ∀ t ∈ s.tasks, t.id = k → s.Minds h dones k (stage k) routine ∧
      (∀ task ward, .armed task ward ∈ h → ward.guard = k → s.Guarding ward routine) ∧
      ∀ timer ∈ s.lockTimers, timer.2 = k → routine.Calm) :
    (s.goOn k routine).Accounts mail h dones stage none where
  exchange := ha.exchange
  ids := by
    have hids : (s.goOn k routine).tasks.map Task.id = s.tasks.map Task.id := by
      simp only [Hub.goOn, updateTask, List.map_map]
      refine List.map_congr_left fun t _ => ?_
      by_cases hid : t.id = k <;> simp [hid]
    exact hids ▸ ha.ids
  bound t' ht' := by
    obtain ⟨t, ht, hid, -⟩ := mem_goOn ht'
    exact hid ▸ ha.bound t ht
  acting _ hk' := by cases hk'
  fresh := ha.fresh
  minds t' ht' _ := by
    obtain ⟨t, ht, hid, -, hroutine⟩ := mem_goOn ht'
    rw [hroutine]
    split
    next heq =>
      rw [heq]
      exact (hgoes t ht (hid.trans heq)).1
    next hne =>
      rw [← hid]
      exact ha.minds t ht fun heq => hne (hid.symm.trans (Option.some.inj heq).symm)
  fallbacks t' ht' := by
    obtain ⟨t, ht, -, hfallback, -⟩ := mem_goOn ht'
    exact hfallback ▸ ha.fallbacks t ht
  senders := ha.senders
  letters r task next hmem := by
    have hp := ha.letters r task next hmem
    refine ⟨hp.number, by simp, ?_, hp.abort⟩
    rcases hp.waits with ⟨t, ht, hid, hroutine⟩ | ⟨hdropped, hnone⟩
    · obtain ⟨t', ht', hid', hroutine'⟩ := exists_goOn ht k routine
      have hne : t.id ≠ k := fun heq => hp.idle (by rw [← hid, heq])
      exact .inl ⟨t', ht', hid'.trans hid, (hroutine' hne).trans hroutine⟩
    · refine .inr ⟨hdropped, fun t' ht' => ?_⟩
      obtain ⟨t, ht, hid, -⟩ := mem_goOn ht'
      exact hid ▸ hnone t ht
  timers timer hmem := by
    obtain ⟨hlt, hidle, hold⟩ := ha.timers timer hmem
    refine ⟨hlt, hidle, fun t' ht' hid' _ => ?_⟩
    obtain ⟨t, ht, hid, -, hroutine⟩ := mem_goOn ht'
    rw [hroutine]
    split
    next heq => exact (hgoes t ht (hid.trans heq)).2.2 timer hmem (hid'.symm.trans heq)
    next hne =>
      have hother : some k ≠ some t.id := fun heq => hne (hid.symm.trans (Option.some.inj heq).symm)
      exact hold t ht (hid.trans hid') hother
  asked := ha.asked
  wards task ward hmem := by
    have hp := ha.wards task ward hmem
    refine ⟨hp.number, hp.answered, hp.caller, hp.done, hp.there.imp_left ?_,
      fun t' ht' hid' _ => ?_, fun t' ht' hid' => ?_⟩
    · rintro ⟨t, ht, hid⟩
      obtain ⟨t', ht', hid', -⟩ := exists_goOn ht k routine
      exact ⟨t', ht', hid'.trans hid⟩
    · obtain ⟨t, ht, hid, -, hroutine⟩ := mem_goOn ht'
      rw [hroutine]
      split
      next heq =>
        exact ((hgoes t ht (hid.trans heq)).2.1 task ward hmem (hid'.symm.trans heq)).mono
          (List.Subset.refl _) fun hd => hd
      next hne =>
        have hother : some k ≠ some t.id := fun heq =>
          hne (hid.symm.trans (Option.some.inj heq).symm)
        exact (hp.keeps t ht (hid.trans hid') hother).mono (List.Subset.refl _) fun hd => hd
    · obtain ⟨t, ht, hid, hfallback, -⟩ := mem_goOn ht'
      exact hfallback ▸ hp.steady t ht (hid.trans hid')
  fired := ha.fired
  numbered := ha.numbered
  known := ha.known
  cares task caller job isNew hmem := by
    refine (ha.cares task caller job isNew hmem).imp_right fun hrest => hrest.imp_right ?_
    rintro ⟨⟨t, ht, hid⟩, hstage⟩
    obtain ⟨t', ht', hid', -⟩ := exists_goOn ht k routine
    exact ⟨⟨t', ht', hid'.trans hid⟩, hstage⟩

def enlist (s : Hub) (routine : Routine Outcome)
    (fallback : Option (Token × Routine Outcome)) : Hub :=
  { s with
    nextNumber := s.nextNumber + 1
    tasks := s.tasks ++ [{ id := s.nextNumber, routine, fallback }] }

/-- A new task begins with what it may do. -/
theorem Accounts.enlist (ha : s.Accounts mail h dones stage busy) {routine : Routine Outcome}
    {fallback : Option (Token × Routine Outcome)} {own : List Token}
    (hlawful : routine.Lawful own .idle)
    (hown : ∀ token ∈ own, token.IsCaller s.nextNumber dones)
    (hfallback : ∀ f, fallback = some f → ∃ id, f = (.job id, Exchange.reportDropped id)) :
    (s.enlist routine fallback).Accounts mail h dones stage busy := by
  have hg := ha.grow (grows_number s 1) (List.Subset.refl _)
    fun token hmem => .inl hmem
  have hnew : ∀ t ∈ (s.enlist routine fallback).tasks, t ∈ s.tasks ∨
      t = { id := s.nextNumber, routine, fallback } := fun t ht =>
    (List.mem_append.mp ht).imp_right List.mem_singleton.mp
  have hold : ∀ {n : Nat}, (∃ t ∈ s.tasks, t.id = n) →
      ∃ t ∈ (s.enlist routine fallback).tasks, t.id = n := by
    rintro n ⟨t, ht, hid⟩
    exact ⟨t, List.mem_append_left _ ht, hid⟩
  refine ⟨hg.exchange, ?_, fun t ht => ?_, hg.acting, hg.fresh, fun t ht hidle => ?_,
    fun t ht => ?_, hg.senders, fun r task next hmem => ?_, fun timer hmem => ?_, hg.asked,
    fun task ward hmem => ?_, hg.fired, hg.numbered, hg.known, fun task caller job isNew hmem => ?_⟩
  · rw [show (s.enlist routine fallback).tasks.map Task.id =
      s.tasks.map Task.id ++ [s.nextNumber] from List.map_append]
    refine List.nodup_append.mpr ⟨ha.ids, by simp, fun a hmem b hb heq => ?_⟩
    rw [List.mem_singleton.mp hb] at heq
    obtain ⟨t, ht, rfl⟩ := List.mem_map.mp hmem
    exact absurd (ha.bound t ht) (by omega)
  · rcases hnew t ht with ht | rfl
    · exact Nat.lt_succ_of_lt (ha.bound t ht)
    · exact Nat.lt_succ_self _
  · rcases hnew t ht with ht | rfl
    · exact hg.minds t ht hidle
    · have hfresh := ha.fresh s.nextNumber (Nat.le_refl _)
      refine ⟨own, ?_, fun token hmem => (hown token hmem).mono (Nat.le_succ _), ?_⟩
      · rw [hfresh.1]
        exact hlawful
      · rw [hfresh.1]
        exact hfresh.2
  · rcases hnew t ht with ht | rfl
    · exact ha.fallbacks t ht
    · exact hfallback
  · have hp := ha.letters r task next hmem
    refine ⟨Nat.lt_succ_of_lt hp.number, hp.idle, ?_, hp.abort⟩
    refine hp.waits.imp (fun ⟨t, ht, hwaits⟩ => ⟨t, List.mem_append_left _ ht, hwaits⟩)
      fun ⟨hdropped, hnone⟩ => ⟨hdropped, fun t ht => ?_⟩
    rcases hnew t ht with ht | rfl
    · exact hnone t ht
    · exact Nat.ne_of_gt hp.number
  · obtain ⟨hlt, hidle, hcalm⟩ := ha.timers timer hmem
    refine ⟨Nat.lt_succ_of_lt hlt, hidle, fun t ht hid hbusy => ?_⟩
    rcases hnew t ht with ht | rfl
    · exact hcalm t ht hid hbusy
    · exact absurd hid (Nat.ne_of_gt hlt)
  · have hp := hg.wards task ward hmem
    have hlt := (ha.wards task ward hmem).number
    refine ⟨hp.number, hp.answered, hp.caller, hp.done, hp.there.imp_left hold,
      fun t ht hid hidle => ?_, fun t ht hid => ?_⟩
    · rcases hnew t ht with ht | rfl
      · exact (hp.keeps t ht hid hidle).mono (List.Subset.refl _) fun hd => hd
      · exact absurd hid (Nat.ne_of_gt hlt)
    · rcases hnew t ht with ht | rfl
      · exact hp.steady t ht hid
      · exact absurd hid (Nat.ne_of_gt hlt)
  · exact (ha.cares task caller job isNew hmem).imp_right fun hrest => hrest.imp_right
      (And.imp_left hold)

theorem Accounts.dropTask (ha : s.Accounts mail h dones stage busy)
    (hdone : .dropped k ∈ h ∨ ((∀ r next, .request r k next ∉ mail) ∧ stage k = .idle))
    (hguard : ∀ task ward, .armed task ward ∈ h → ward.guard = k → s.Dealt ward.job) :
    (s.dropTask k).Accounts mail h dones stage busy := by
  have hmem : ∀ t ∈ (s.dropTask k).tasks, t ∈ s.tasks := fun t ht => (List.mem_filter.mp ht).1
  have hkeep : ∀ t ∈ s.tasks, t.id ≠ k → t ∈ (s.dropTask k).tasks := fun t ht hne =>
    List.mem_filter.mpr ⟨ht, by simpa using hne⟩
  refine ⟨ha.exchange, ?_, fun t ht => ha.bound t (hmem t ht), ha.acting, ha.fresh,
    fun t ht hidle => ha.minds t (hmem t ht) hidle, fun t ht => ha.fallbacks t (hmem t ht),
    ha.senders, fun r task next hl => ?_, fun timer htimer => ?_, ha.asked,
    fun task ward hward => ?_, ha.fired, ha.numbered, ha.known,
    fun task caller job isNew hanswered => ?_⟩
  · exact ha.ids.sublist (List.filter_sublist.map _)
  · have hp := ha.letters r task next hl
    refine ⟨hp.number, hp.idle, ?_, hp.abort⟩
    rcases hp.waits with ⟨t, ht, hid, hroutine⟩ | ⟨hdropped, hnone⟩
    · by_cases hne : task = k
      · subst hne
        rcases hdone with hdropped | ⟨hsilent, -⟩
        · refine .inr ⟨hdropped, fun t ht heq => ?_⟩
          have hout := (List.mem_filter.mp ht).2
          simp [heq] at hout
        · exact absurd hl (hsilent r next)
      · exact .inl ⟨t, hkeep t ht (hid ▸ hne), hid, hroutine⟩
    · exact .inr ⟨hdropped, fun t ht => hnone t (hmem t ht)⟩
  · obtain ⟨hlt, hidle, hcalm⟩ := ha.timers timer htimer
    exact ⟨hlt, hidle, fun t ht => hcalm t (hmem t ht)⟩
  · have hp := ha.wards task ward hward
    refine ⟨hp.number, hp.answered, hp.caller, hp.done, ?_, fun t ht hid hidle =>
      (hp.keeps t (hmem t ht) hid hidle).mono (List.Subset.refl _) fun hd => hd,
      fun t ht => hp.steady t (hmem t ht)⟩
    by_cases hk : ward.guard = k
    · exact .inr (hguard task ward hward hk)
    · exact hp.there.imp_left fun ⟨t, ht, hid⟩ => ⟨t, hkeep t ht (hid ▸ hk), hid⟩
  · rcases ha.cares task caller job isNew hanswered with hd | harmed | ⟨⟨t, ht, hid⟩, hstage⟩
    · exact .inl hd
    · exact .inr (.inl harmed)
    · by_cases hk : task = k
      · subst hk
        rcases hdone with hd | ⟨-, hidle⟩
        · exact .inl hd
        · rw [hidle] at hstage
          rcases hstage with hstage | ⟨_, hstage⟩ <;> cases hstage
      · exact .inr (.inr ⟨⟨t, hkeep t ht (hid ▸ hk), hid⟩, hstage⟩)

end Hub

end Switchboard
