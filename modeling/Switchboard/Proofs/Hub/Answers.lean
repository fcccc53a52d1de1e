import Switchboard.Proofs.Hub.Accounts

namespace Switchboard

namespace JobBoard

theorem closed_foldl_see {β : Type} (b : JobBoard) (effects : List (JobEffect β)) :
    (effects.foldl see b).closed = b.closed := by
  induction effects generalizing b with
  | nil => rfl
  | cons effect rest ih => exact (ih (b.see effect)).trans (closed_see b effect)

end JobBoard

namespace Hub

variable {s s' : Hub} {mail : List Letter} {h : Chronicle} {dones : List (Nat × Nat)}
  {stage : Nat → CallStage} {busy : Option Nat} {k : Nat}

/-- While there is a keeper, whoever watches a job sees what the table knows of it. When the keeper
has gone, nothing is left to abort. -/
structure Keeping (s : Hub) : Prop where
  tidy : s.Tidy
  shows : s.kept = true → s.board.Agrees s.jobs.roll ∧ s.board.closed = false
  unkept : s.kept = false → ∀ job < s.jobs.nextId, s.Dealt job

theorem Keeping.same (hk : s.Keeping) (h : SameKeeping s s') (hfired : s.fired ⊆ s'.fired) :
    s'.Keeping where
  tidy := (h.follows hk.tidy).tidy
  shows hkept := by
    rw [h.board, h.jobs]
    exact hk.shows (h.kept ▸ hkept)
  unkept hkept job hjob := by
    have hdealt := hk.unkept (h.kept ▸ hkept) job (h.jobs ▸ hjob)
    exact hdealt.imp (fun hmem => hfired hmem) fun hpast => h.jobs ▸ hpast

/-- Whoever waits for the end of a job and is told of it need not abort it any more. -/
theorem Keeping.dealt (hk : s.Keeping) {job : Nat} (hjob : job < s.jobs.nextId)
    {ending : Except CallError JobSnapshot} (hending : s.board.ending? job = some ending) :
    s.Dealt job := by
  cases hkept : s.kept with
  | true =>
    obtain ⟨hagrees, hopen⟩ := hk.shows hkept
    exact .inr (hagrees.past_of_ending hopen hjob hending)
  | false => exact hk.unkept hkept job hjob

theorem fired_apply (s : Hub) (effect : JobEffect JobBody) :
    (s.apply effect).fired = effect.stop?.toList.map .job ++ s.fired := by
  cases effect with
  | reveal snapshot =>
    have hfired := congrArg Hub.fired
      (bare_wakeWatchers { s with board := s.board.reveal snapshot } snapshot.id)
    exact hfired
  | conceal id =>
    have hfired := congrArg Hub.fired
      (bare_wakeWatchers { s with board := s.board.conceal id } id)
    exact hfired
  | start id droppable body =>
    have hfired := congrArg Hub.fired (bare_spawn s (s.exchange.runJob id body)
      (if droppable then some (.job id, Exchange.reportDropped id) else none))
    exact hfired
  | armTimer id ms =>
    have hfired := congrArg Hub.fired (bare_spawn s (Exchange.runLockTimer id ms) none)
    exact hfired
  | disarmTimer id =>
    simp only [apply]
    split <;> rfl
  | cancel id =>
    have hfired := congrArg Hub.fired (bare_cancel s (.job id))
    exact hfired
  | _ => rfl

theorem fired_foldl_apply (effects : List (JobEffect JobBody)) (s : Hub) :
    s.fired ⊆ (effects.foldl apply s).fired ∧
      ∀ id ∈ stopsOf effects, .job id ∈ (effects.foldl apply s).fired := by
  induction effects generalizing s with
  | nil => exact ⟨List.Subset.refl _, fun id hid => by cases hid⟩
  | cons effect rest ih =>
    obtain ⟨hsub, hstops⟩ := ih (s.apply effect)
    rw [fired_apply] at hsub
    refine ⟨List.Subset.trans (List.subset_append_right _ _) hsub, fun id hid => ?_⟩
    have hsplit : stopsOf (effect :: rest) = stopsOf [effect] ++ stopsOf rest :=
      stopsOf_append [effect] rest
    rw [hsplit] at hid
    rcases List.mem_append.mp hid with hid | hid
    · refine hsub (List.mem_append_left _ (List.mem_map_of_mem ?_))
      cases effect with
      | cancel id' => exact hid
      | _ => cases hid
    · exact hstops id hid

theorem grows_board (s : Hub) (board : JobBoard) : Grows s ({ s with board } : Hub) :=
  ⟨rfl, rfl, Nat.le_refl _, Nat.le_refl _, List.Subset.refl _, fun _ hp => hp⟩

theorem Accounts.board (ha : s.Accounts mail h dones stage busy) (board : JobBoard) :
    ({ s with board } : Hub).Accounts mail h dones stage busy :=
  ha.grow (grows_board s board) (List.Subset.refl _) fun _ hmem => .inl hmem

theorem Accounts.fire (ha : s.Accounts mail h dones stage busy) {token : Token}
    (htoken : (∃ job, token = .job job ∧ h.Blames job) ∨
      ∃ n job, token = .root n ∧ (n, job) ∈ dones ∧ s.Dealt job) :
    ({ s with fired := token :: s.fired } : Hub).Accounts mail h dones stage busy := by
  have hg : Grows s { s with fired := token :: s.fired } :=
    ⟨rfl, rfl, Nat.le_refl _, Nat.le_refl _, List.subset_cons_self _ _, fun _ hp => hp⟩
  refine ha.grow hg (List.Subset.refl _) fun token' hmem => ?_
  rcases List.mem_cons.mp hmem with rfl | hmem
  · exact .inr htoken
  · exact .inl hmem

theorem not_calm_ask {r : JobRequest} {next : Except CallError r.Reply → Routine Outcome} :
    ¬ (Routine.act (.ask r) next).Calm := fun hcalm => hcalm.1

theorem Accounts.disarm (ha : s.Accounts mail h dones stage none) {id task : Nat}
    (hmem : (id, task) ∈ s.lockTimers) :
    (s.dropTask task).Accounts mail h dones stage none := by
  obtain ⟨-, hidle, hcalm⟩ := ha.timers _ hmem
  refine ha.dropTask ?_ fun k ward hward hguard => ?_
  · by_cases hdropped : .dropped task ∈ h
    · exact .inl hdropped
    refine .inr ⟨fun r next hl => ?_, hidle⟩
    rcases (ha.letters r task next hl).waits with ⟨t, ht, hid, hroutine⟩ | ⟨hd, -⟩
    · have hcalm' := hcalm t ht hid (by simp)
      rw [hroutine] at hcalm'
      exact not_calm_ask hcalm'
    · exact hdropped hd
  · have hp := ha.wards k ward hward
    rcases hp.there with ⟨t, ht, hid⟩ | hdealt
    · have hcalm' := hcalm t ht (hid.trans hguard) (by simp)
      have hkeeps := hp.keeps t ht hid (by simp)
      generalize t.routine = routine at hcalm' hkeeps
      cases hkeeps with
      | waits => exact hcalm'.1.elim
      | asks _ _ => exact (not_calm_ask hcalm').elim
      | ended hdealt => exact hdealt
    · exact hdealt

theorem calm_runLockTimer (id ms : Nat) : (Exchange.runLockTimer id ms).Calm :=
  ⟨trivial, fun _ => ⟨trivial, fun _ => ⟨trivial, fun _ => trivial⟩⟩⟩

theorem isCaller_job (id next : Nat) (dones : List (Nat × Nat)) :
    (Token.job id).IsCaller next dones := fun n hn => by cases hn

theorem Accounts.apply (ha : s.Accounts mail h dones stage none) (effect : JobEffect JobBody)
    (hstop : ∀ id ∈ stopsOf [effect], h.Blames id) :
    (s.apply effect).Accounts mail h dones stage none := by
  cases effect with
  | publish event =>
    have hg : Grows s (s.apply (.publish event)) :=
      ⟨rfl, rfl, Nat.le_refl _, Nat.le_refl _, List.Subset.refl _, fun _ hp => hp⟩
    exact ha.grow hg (List.Subset.refl _) fun _ hmem => .inl hmem
  | reveal snapshot => exact (ha.board _).of_bare (bare_wakeWatchers _ _)
  | conceal id => exact (ha.board _).of_bare (bare_wakeWatchers _ _)
  | start id droppable body =>
    refine Accounts.of_bare ?_ (bare_spawn s _ _)
    refine ha.enlist (Exchange.lawful_runJob ha.exchange id body) (fun token hmem => ?_)
      fun f hf => ?_
    · rw [List.mem_singleton.mp hmem]
      exact isCaller_job id _ _
    · cases droppable with
      | true => exact ⟨id, (Option.some.inj hf).symm⟩
      | false => cases hf
  | armTimer id ms =>
    have hlawful : (Exchange.runLockTimer id ms).Lawful [] .idle :=
      Exchange.lawful_runLockTimer id ms
    have hspawned : (s.spawn (Exchange.runLockTimer id ms)).2.Accounts mail h dones stage none :=
      (ha.enlist hlawful (fun token hmem => by cases hmem) fun f hf => by cases hf).of_bare
        (bare_spawn s (Exchange.runLockTimer id ms) none)
    have hg : Grows (s.spawn (Exchange.runLockTimer id ms)).2 (s.apply (.armTimer id ms)) :=
      ⟨rfl, rfl, Nat.le_refl _, Nat.le_refl _, List.Subset.refl _, fun _ hp => hp⟩
    refine hspawned.carry hg hspawned.senders (fun _ _ _ hmem => .inl hmem) (fun timer hmem => ?_)
      fun _ hmem => .inl hmem
    refine (List.mem_cons.mp hmem).symm.imp_right fun heq => ?_
    rw [heq]
    have hnumber := congrArg Hub.nextNumber (bare_spawn s (Exchange.runLockTimer id ms) none)
    refine ⟨Nat.lt_of_lt_of_eq (Nat.lt_succ_self s.nextNumber) hnumber.symm,
      (ha.fresh s.nextNumber (Nat.le_refl _)).1, fun t ht hid _ => ?_⟩
    have htasks : (s.spawn (Exchange.runLockTimer id ms)).2.tasks =
      s.tasks ++ [{ id := s.nextNumber, routine := Exchange.runLockTimer id ms }] :=
      tasks_enqueue _ _
    have ht' : t ∈ (s.spawn (Exchange.runLockTimer id ms)).2.tasks := ht
    rw [htasks] at ht'
    rcases List.mem_append.mp ht' with ht | ht
    · exact absurd hid (Nat.ne_of_lt (ha.bound t ht))
    · rw [List.mem_singleton.mp ht]
      exact calm_runLockTimer id ms
  | disarmTimer id =>
    simp only [Hub.apply]
    split
    next => exact ha
    next task hlookup =>
      obtain ⟨before, after, heq, -⟩ := List.lookup_eq_some_iff.mp hlookup
      have hmem : (id, task) ∈ s.lockTimers := heq ▸ List.mem_append_right _ List.mem_cons_self
      exact (ha.disarm hmem).grow ⟨rfl, rfl, Nat.le_refl _, Nat.le_refl _, List.Subset.refl _,
        fun _ hp => hp⟩ List.filter_sublist.subset fun _ hmem => .inl hmem
  | cancel id =>
    refine Accounts.of_bare ?_ (bare_cancel s (.job id))
    exact ha.fire (.inl ⟨id, rfl, hstop id List.mem_cons_self⟩)
  | log record =>
    have hg : Grows s (s.apply (.log record)) :=
      ⟨rfl, rfl, Nat.le_refl _, Nat.le_refl _, List.Subset.refl _, fun _ hp => hp⟩
    exact ha.grow hg (List.Subset.refl _) fun _ hmem => .inl hmem

theorem Accounts.foldl_apply (effects : List (JobEffect JobBody))
    (ha : s.Accounts mail h dones stage none) (hstops : ∀ id ∈ stopsOf effects, h.Blames id) :
    (effects.foldl Hub.apply s).Accounts mail h dones stage none := by
  induction effects generalizing s with
  | nil => exact ha
  | cons effect rest ih =>
    have hsplit : stopsOf (effect :: rest) = stopsOf [effect] ++ stopsOf rest :=
      stopsOf_append [effect] rest
    rw [hsplit] at hstops
    exact ih (ha.apply effect fun id hid => hstops id (List.mem_append_left _ hid))
      fun id hid => hstops id (List.mem_append_right _ hid)

theorem Accounts.adopt (ha : s.Accounts mail h dones stage none) (hk : s.Keeping)
    {t : JobTable JobBody} {stops : List Nat} (htells : JobTable.Tells s.jobs t stops)
    (hstops : ∀ id ∈ stops, h.Blames id) : (s.adopt t).Accounts mail h dones stage none := by
  obtain ⟨effects, heffects, hstopsOf, -⟩ := htells.recounts
  rw [hk.tidy.settled, List.nil_append] at heffects
  have hg : Grows s { s with jobs := { t with effects := [] } } :=
    ⟨rfl, rfl, Nat.le_refl _, htells.nextId_le, List.Subset.refl _, fun _ hp => htells.past hp⟩
  have htaken := ha.grow hg (List.Subset.refl _) fun _ hmem => .inl hmem
  refine htaken.foldl_apply t.effects fun id hid => hstops id ?_
  rwa [heffects, hstopsOf] at hid

theorem Keeping.adopt (hk : s.Keeping) (hkept : s.kept = true) {t : JobTable JobBody}
    {stops : List Nat} (htells : JobTable.Tells s.jobs t stops) :
    (s.adopt t).Keeping ∧ s.fired ⊆ (s.adopt t).fired ∧
      ∀ id ∈ stops, .job id ∈ (s.adopt t).fired := by
  obtain ⟨effects, heffects, hstopsOf, hrecounts⟩ := htells.recounts
  rw [hk.tidy.settled, List.nil_append] at heffects
  obtain ⟨hjobs, hkept', -⟩ := adopt_jobs s t
  obtain ⟨hsub, hfired⟩ :=
    fired_foldl_apply t.effects { s with jobs := { t with effects := [] } }
  have hfollows := follows_adopt hk.tidy hkept htells
  obtain ⟨hagrees, hopen⟩ := hk.shows hkept
  refine ⟨⟨hfollows.tidy, fun _ => ?_, fun hnot => ?_⟩, hsub, fun id hid => hfired id ?_⟩
  · have hboard : (s.adopt t).board = t.effects.foldl JobBoard.see s.board :=
      board_foldl_apply t.effects _
    rw [hboard, hjobs, heffects]
    exact ⟨hagrees.recounts hk.tidy.jobs.bounded hrecounts, (JobBoard.closed_foldl_see _ _).trans hopen⟩
  · rw [hkept', hkept] at hnot
    cases hnot
  · rwa [heffects, hstopsOf]

/-- The task is at a request that it makes of the keeper, or was dropped there. -/
def AsksFor (s : Hub) (h : Chronicle) (task : Nat) (r : JobRequest)
    (next : Except CallError r.Reply → Routine Outcome) : Prop :=
  (∃ t ∈ s.tasks, t.id = task ∧ t.routine = .act (.ask r) next) ∨
    (.dropped task ∈ h ∧ ∀ t ∈ s.tasks, t.id ≠ task)

/-- A task that goes on after a request is no timer, and a guard only if it has asked for the abort
of its job. -/
theorem Accounts.after_ask (ha : s.Accounts mail h dones stage none) {r : JobRequest}
    {next : Except CallError r.Reply → Routine Outcome} {t : Task} (ht : t ∈ s.tasks)
    (hroutine : t.routine = .act (.ask r) next)
    (hdealt : ∀ job, r = .abort job → job < s.jobs.nextId → s.Dealt job)
    (reply : Except CallError r.Reply) :
    (∀ task ward, .armed task ward ∈ h → ward.guard = t.id → s.Guarding ward (next reply)) ∧
      ∀ timer ∈ s.lockTimers, timer.2 ≠ t.id := by
  refine ⟨fun task ward hward hguard => ?_, fun timer htimer heq => ?_⟩
  · have hp := ha.wards task ward hward
    obtain ⟨isNew, hanswered⟩ := hp.answered
    have hjob := ha.known _ _ _ _ hanswered
    have hkeeps := hp.keeps t ht hguard.symm (by simp)
    rw [hroutine] at hkeeps
    cases hkeeps with
    | asks _ hnext =>
      rw [hnext reply]
      exact .ended (hdealt ward.job rfl hjob)
  · have hcalm := (ha.timers timer htimer).2.2 t ht heq.symm (by simp)
    rw [hroutine] at hcalm
    exact not_calm_ask hcalm

theorem Accounts.told_other (ha : s.Accounts mail h dones stage none) (hk : k < s.nextNumber)
    (hsilent : ∀ r next, .request r k next ∉ mail) {r : JobRequest}
    {next : Except CallError r.Reply → Routine Outcome} (hasks : s.AsksFor h k r next)
    (hr : ∀ job, r ≠ .submit job)
    (hdealt : ∀ job, r = .abort job → job < s.jobs.nextId → s.Dealt job)
    (reply : Except CallError r.Reply) :
    (s.goOn k (next reply)).Accounts mail h dones stage none := by
  refine (ha.leave hk hsilent).goOn fun t' ht' hid' => ?_
  rcases hasks with ⟨t, ht, rfl, hroutine⟩ | ⟨-, hnone⟩
  · obtain ⟨hguard, htimer⟩ := ha.after_ask ht hroutine hdealt reply
    refine ⟨?_, hguard, fun timer hmem heq => absurd heq (htimer timer hmem)⟩
    obtain ⟨own, hlawful, hown, hstaged⟩ := ha.minds t ht (by simp)
    rw [hroutine] at hlawful
    generalize stage t.id = st at hlawful hstaged ⊢
    cases hlawful with
    | plain _ hnext => exact ⟨own, hnext reply, hown, hstaged⟩
    | submit => exact absurd rfl (hr _)
  · exact absurd hid' (hnone t' ht')

theorem Accounts.told_submit (ha : s.Accounts mail h dones stage none) {job : NewJob JobBody}
    {next : Except CallError Nat → Routine Outcome} {t : Task} (ht : t ∈ s.tasks)
    (hroutine : t.routine = .act (.ask (.submit job)) next)
    (hsilent : ∀ r next, .request r t.id next ∉ mail) {e : Happening}
    (hcaller : ∀ k, Chronicle.caller? k (e :: h) = if t.id = k then none else h.caller? k)
    (hasked : ∀ task job, e ≠ .asked task job) (harmed : ∀ task ward, e ≠ .armed task ward)
    (st : CallStage)
    (hanswered : ∀ task job isNew, e = .answered task job isNew →
      ∀ caller, h.caller? task = some caller →
        job < s.jobs.nextId ∧ s.Cares (e :: h) (Function.update stage t.id st) task caller job)
    {reply : Except CallError Nat} {own : List Token} (hlawful : (next reply).Lawful own st)
    (hown : ∀ token ∈ own, token.IsCaller s.nextNumber dones)
    (hstaged : s.Staged (e :: h) dones t.id st) :
    (s.goOn t.id (next reply)).Accounts mail (e :: h) dones (Function.update stage t.id st)
      none := by
  obtain ⟨hguard, htimer⟩ := ha.after_ask (r := .submit job) ht hroutine
    (fun _ heq => by cases heq) reply
  -- A task that submits a job does not owe a guard to another one.
  have howes : ∀ caller job', ¬ (stage t.id = .answered caller job' ∨
      ∃ done, stage t.id = .named caller job' done) := by
    obtain ⟨_, hbefore, -⟩ := ha.minds t ht (by simp)
    rw [hroutine] at hbefore
    generalize stage t.id = before at hbefore
    cases hbefore <;> rintro _ _ (heq | ⟨_, heq⟩) <;> cases heq
  have hrestaged := (ha.leave (ha.bound t ht) hsilent).restage st
    (fun timer hmem heq => absurd heq (htimer timer hmem))
    fun caller job' howed => absurd howed (howes caller job')
  refine (hrestaged.hear e
    (fun k hne => (hcaller k).trans (if_neg fun heq => hne (congrArg some heq)))
    (fun task job heq => absurd heq (hasked task job))
    (fun task ward heq => absurd heq (harmed task ward)) hanswered).goOn fun _ _ _ => ?_
  rw [Function.update_self]
  exact ⟨⟨own, hlawful, hown, hstaged⟩,
    fun task ward hward => hguard task ward
      ((List.mem_cons.mp hward).resolve_left fun heq => harmed task ward heq.symm),
    fun timer hmem heq => absurd heq (htimer timer hmem)⟩

theorem Accounts.told_job (ha : s.Accounts mail h dones stage none) (hk : k < s.nextNumber)
    (hsilent : ∀ r next, .request r k next ∉ mail) {job : NewJob JobBody}
    {next : Except CallError Nat → Routine Outcome} (hasks : s.AsksFor h k (.submit job) next)
    {id : Nat} (hid : id < s.jobs.nextId) (isNew : Bool) :
    ∃ stage', (s.goOn k (next (.ok id))).Accounts mail (.answered k id isNew :: h) dones stage'
      none := by
  rcases hasks with ⟨t, ht, rfl, hroutine⟩ | ⟨hdropped, habsent⟩
  · have hnone : Chronicle.caller? t.id (.answered t.id id isNew :: h) = none := if_pos rfl
    obtain ⟨own, hlawful, hown, hstaged⟩ := ha.minds t ht (by simp)
    rw [hroutine] at hlawful
    generalize stage t.id = before at hlawful hstaged
    cases hlawful with
    | plain _ hnext =>
      refine ⟨_, ha.told_submit ht hroutine hsilent (fun _ => rfl) (by simp) (by simp) .idle
        (fun task job' isNew' heq caller hsome => ?_) (hnext _) hown hnone⟩
      cases heq
      rw [show h.caller? t.id = none from hstaged] at hsome
      cases hsome
    | @submit _ caller _ _ _ hok _ =>
      have hcalled : h.caller? t.id = some caller := hstaged
      refine ⟨_, ha.told_submit ht hroutine hsilent (fun _ => rfl) (by simp) (by simp)
        (.answered caller id) (fun task job' isNew' heq caller' hsome => ?_) (hok id) hown
        ⟨hnone, isNew, [], h, rfl, hcalled⟩⟩
      cases heq
      rw [hcalled] at hsome
      cases hsome
      exact ⟨hid, .inr (.inr ⟨⟨t, ht, rfl⟩, .inl (Function.update_self ..)⟩)⟩
  · refine ⟨stage, ((ha.leave hk hsilent).hear (.answered k id isNew) (fun k' hne => if_neg
      fun heq => hne (congrArg some heq)) (fun _ _ heq => by cases heq)
      (fun _ _ heq => by cases heq) fun task job' isNew' heq caller _ => ?_).goOn
      fun t ht heq => absurd heq (habsent t ht)⟩
    cases heq
    exact ⟨hid, .inl (List.mem_cons_of_mem _ hdropped)⟩

theorem Accounts.told_error (ha : s.Accounts mail h dones stage none) (hk : k < s.nextNumber)
    (hsilent : ∀ r next, .request r k next ∉ mail) {job : NewJob JobBody}
    {next : Except CallError Nat → Routine Outcome} (hasks : s.AsksFor h k (.submit job) next)
    (e : CallError) :
    ∃ stage', (s.goOn k (next (.error e))).Accounts mail (.refused k :: h) dones stage' none := by
  rcases hasks with ⟨t, ht, rfl, hroutine⟩ | ⟨hdropped, habsent⟩
  · have hnone : Chronicle.caller? t.id (.refused t.id :: h) = none := if_pos rfl
    obtain ⟨own, hlawful, hown, -⟩ := ha.minds t ht (by simp)
    rw [hroutine] at hlawful
    have hnext : (next (.error e)).Lawful own .idle := by
      generalize stage t.id = before at hlawful
      cases hlawful with
      | plain _ hnext => exact hnext _
      | submit _ _ herror => exact herror e
    exact ⟨_, ha.told_submit ht hroutine hsilent (fun _ => rfl) (by simp) (by simp) .idle
      (fun _ _ _ heq => by cases heq) hnext hown hnone⟩
  · exact ⟨stage, ((ha.leave hk hsilent).hear (.refused k) (fun k' hne => if_neg fun heq =>
      hne (congrArg some heq)) (fun _ _ heq => by cases heq) (fun _ _ heq => by cases heq)
      fun _ _ _ heq => by cases heq).goOn fun t ht heq => absurd heq (habsent t ht)⟩

theorem Posts.asksFor {r : JobRequest} {task : Nat}
    {next : Except CallError r.Reply → Routine Outcome} (hp : s.Posts h busy r task next) :
    s.AsksFor h task r next := hp.waits

theorem Accounts.silent (ha : s.Accounts mail h dones stage none) {r : JobRequest} {task : Nat}
    {next : Except CallError r.Reply → Routine Outcome}
    (hfind : mail.find? Letter.isRequest = some (.request r task next)) :
    ∀ r' next', .request r' task next' ∉ mail.eraseP Letter.isRequest := by
  intro r' next' hmem
  obtain ⟨hp, before, after, rfl, hnot⟩ := List.find?_eq_some_iff_append.mp hfind
  have herase : (before ++ .request r task next :: after).eraseP Letter.isRequest =
      before ++ after := by
    rw [List.eraseP_append_right _ fun l hl => by simpa using hnot l hl,
      List.eraseP_cons_of_pos hp]
  rw [herase] at hmem
  have hnodup := ha.senders
  rw [List.filterMap_append, List.filterMap_cons_some (show Letter.sender? (.request r task next) =
    some task from rfl), List.nodup_middle, ← List.filterMap_append] at hnodup
  exact (List.nodup_cons.mp hnodup).1 (List.mem_filterMap.mpr ⟨_, hmem, rfl⟩)

theorem fired_of_bare (hbare : s'.bare = s.bare) : s'.fired = s.fired := by
  have hfired := congrArg Hub.fired hbare
  exact hfired

theorem letters_apply (s : Hub) (effect : JobEffect JobBody) :
    (s.apply effect).letters = s.letters := by
  cases effect with
  | reveal snapshot =>
    have hletters := congrArg Hub.letters
      (bare_wakeWatchers { s with board := s.board.reveal snapshot } snapshot.id)
    exact hletters
  | conceal id =>
    have hletters := congrArg Hub.letters
      (bare_wakeWatchers { s with board := s.board.conceal id } id)
    exact hletters
  | start id droppable body =>
    have hletters := congrArg Hub.letters (bare_spawn s (s.exchange.runJob id body)
      (if droppable then some (.job id, Exchange.reportDropped id) else none))
    exact hletters
  | armTimer id ms =>
    have hletters := congrArg Hub.letters (bare_spawn s (Exchange.runLockTimer id ms) none)
    exact hletters
  | disarmTimer id =>
    simp only [Hub.apply]
    split <;> rfl
  | cancel id =>
    have hletters := congrArg Hub.letters (bare_cancel s (.job id))
    exact hletters
  | _ => rfl

theorem letters_adopt (s : Hub) (t : JobTable JobBody) : (s.adopt t).letters = s.letters := by
  have hall : ∀ (effects : List (JobEffect JobBody)) (s : Hub),
      (effects.foldl Hub.apply s).letters = s.letters := by
    intro effects
    induction effects with
    | nil => exact fun _ => rfl
    | cons effect rest ih => exact fun s => (ih _).trans (letters_apply s effect)
  exact hall t.effects _

/-- The accounts are right and the table is kept in order, between two strokes. -/
structure Sound (s : Hub) (h : Chronicle) : Prop where
  keeping : s.Keeping
  accounts : ∃ dones stage, s.Accounts s.letters h dones stage none

theorem Sound.of_bare (hs : s.Sound h) (hbare : s'.bare = s.bare) : s'.Sound h := by
  obtain ⟨hk, dones, stage, ha⟩ := hs
  have hletters := congrArg Hub.letters hbare
  simp only [bare] at hletters
  refine ⟨hk.same (sameKeeping_of_bare hbare) ?_, dones, stage, hletters ▸ ha.of_bare hbare⟩
  rw [fired_of_bare hbare]
  exact List.Subset.refl _

theorem sound_resume (hk : s.Keeping) {routine : Routine Outcome}
    (ha : (s.goOn k routine).Accounts s.letters h dones stage none) :
    (s.resume k routine).Sound h := by
  have hgone : (s.goOn k routine).Sound h :=
    ⟨hk.same ⟨rfl, rfl, rfl, rfl⟩ (List.Subset.refl _), dones, stage, ha⟩
  exact hgone.of_bare (bare_resume s k routine)

/-- When the keeper has gone, nothing can be left to abort. -/
theorem Sound.retire (hs : s.Sound h) (hover : ∀ job < s.jobs.nextId, s.Dealt job) :
    s.retire.Sound h := by
  obtain ⟨hk, dones, stage, ha⟩ := hs
  let gone : Hub :=
    { s with kept := false, board := s.board.close, jobEvents := s.jobEvents.close }
  have hg : Grows s gone :=
    ⟨rfl, rfl, Nat.le_refl _, Nat.le_refl _, List.Subset.refl _, fun _ hp => hp⟩
  have hgone : gone.Sound h :=
    ⟨⟨⟨hk.tidy.jobs, hk.tidy.settled, hk.tidy.readers⟩, fun hkept => absurd hkept Bool.false_ne_true,
      fun _ => hover⟩, dones, stage, ha.grow hg (List.Subset.refl _) fun _ hmem => .inl hmem⟩
  exact hgone.of_bare (bare_retire s)

/-- What is known when a request is to be answered: the accounts count its letter as still under
way, although it was taken from the mail. -/
structure Answering (s : Hub) (mail : List Letter) (h : Chronicle) (dones : List (Nat × Nat))
    (stage : Nat → CallStage) (r : JobRequest) (task : Nat)
    (next : Except CallError r.Reply → Routine Outcome) : Prop where
  keeping : s.Keeping
  accounts : s.Accounts mail h dones stage none
  letter : .request r task next ∈ mail
  rest : s.letters.Sublist mail
  silent : ∀ r' next', .request r' task next' ∉ s.letters

namespace Answering

variable {r : JobRequest} {task : Nat} {next : Except CallError r.Reply → Routine Outcome}

theorem posts (hs : s.Answering mail h dones stage r task next) : s.Posts h none r task next :=
  hs.accounts.letters r task next hs.letter

theorem fewer (hs : s.Answering mail h dones stage r task next) :
    s.Accounts s.letters h dones stage none := hs.accounts.fewer hs.rest

theorem told (hs : s.Answering mail h dones stage r task next) (hr : ∀ job, r ≠ .submit job)
    (hdealt : ∀ job, r = .abort job → job < s.jobs.nextId → s.Dealt job)
    (reply : Except CallError r.Reply) : (s.resume task (next reply)).Sound h :=
  sound_resume hs.keeping
    (hs.fewer.told_other hs.posts.number hs.silent hs.posts.asksFor hr hdealt reply)

theorem adopt (hs : s.Answering mail h dones stage r task next) (hkept : s.kept = true)
    {t : JobTable JobBody} {stops : List Nat} (htells : JobTable.Tells s.jobs t stops)
    (hstops : ∀ id ∈ stops, h.Blames id) :
    (s.adopt t).Answering mail h dones stage r task next where
  keeping := (hs.keeping.adopt hkept htells).1
  accounts := hs.accounts.adopt hs.keeping htells hstops
  letter := hs.letter
  rest := letters_adopt s t ▸ hs.rest
  silent := letters_adopt s t ▸ hs.silent

theorem hear_stopped (hs : s.Answering mail h dones stage r task next) :
    s.Answering mail (.stopped :: h) dones stage r task next :=
  { hs with
    accounts := hs.accounts.hear .stopped (fun _ _ => rfl) (fun _ _ heq => by cases heq)
      (fun _ _ heq => by cases heq) fun _ _ _ heq => by cases heq }

theorem jobs_adopt {t : JobTable JobBody} : (s.adopt t).jobs = { t with effects := [] } :=
  (adopt_jobs s t).1

theorem submit {job : NewJob JobBody} {next : Except CallError Nat → Routine Outcome}
    (hs : s.Answering mail h dones stage (.submit job) task next) (hkept : s.kept = true) :
    (s.answer (.submit job) task next).Sound
      (.answered task (s.jobs.submit s.now job).2 (s.jobs.standIn? job).isNone :: h) := by
  have htaken := hs.adopt hkept (hs.keeping.tidy.jobs.tells_submit s.now job) fun id hid => by
    cases hid
  have hknown : (s.jobs.submit s.now job).2 <
      (s.adopt (s.jobs.submit s.now job).1).jobs.nextId := by
    rw [jobs_adopt]
    exact hs.keeping.tidy.jobs.submit_lt s.now job
  obtain ⟨stage', ha⟩ := htaken.fewer.told_job htaken.posts.number htaken.silent
    htaken.posts.asksFor hknown (s.jobs.standIn? job).isNone
  exact sound_resume htaken.keeping ha

theorem abort {job : Nat} {next : Except CallError (Except CallError Unit) → Routine Outcome}
    (hs : s.Answering mail h dones stage (.abort job) task next) (hkept : s.kept = true) :
    (s.answer (.abort job) task next).Sound h := by
  have htells := hs.keeping.tidy.jobs.tells_abort s.now job
  have htaken := hs.adopt hkept htells fun id hid => by
    rw [JobTable.eq_of_mem_stopsOfAbort hid]
    exact hs.posts.abort job rfl
  refine htaken.told (fun _ heq => by cases heq) (fun job' heq hlt => ?_) _
  cases heq
  rw [jobs_adopt] at hlt
  by_cases hjob : job < s.jobs.nextId
  · rcases hs.keeping.tidy.jobs.past_abort hjob s.now with hstop | hpast
    · exact .inl ((hs.keeping.adopt hkept htells).2.2 job hstop)
    · refine .inr ?_
      rw [jobs_adopt]
      exact hpast
  · -- a job of this number does not exist, and nothing becomes of an abort
    have hnone : s.jobs.job? job = none := by
      cases he : s.jobs.job? job with
      | none => rfl
      | some e => exact absurd (hs.keeping.tidy.jobs.lt_of_job? he) hjob
    simp only [JobTable.abort, hnone] at hlt
    exact absurd hlt hjob

theorem shutdown {next : Except CallError Nat → Routine Outcome}
    (hs : s.Answering mail h dones stage .shutdown task next) (hkept : s.kept = true) :
    (s.answer .shutdown task next).retire.Sound (.stopped :: h) := by
  let written := s.write .info "Stopping job manager"
  have hg : Grows s written :=
    ⟨rfl, rfl, Nat.le_refl _, Nat.le_refl _, List.Subset.refl _, fun _ hp => hp⟩
  have hw : written.Answering mail (.stopped :: h) dones stage .shutdown task next :=
    { hs.hear_stopped with
      keeping := hs.keeping.same ⟨rfl, rfl, rfl, rfl⟩ (List.Subset.refl _)
      accounts := hs.hear_stopped.accounts.grow hg (List.Subset.refl _) fun _ hmem => .inl hmem }
  have htells := hw.keeping.tidy.jobs.tells_stopAll s.now
  have htaken := hw.adopt hkept htells fun id _ => .inl List.mem_cons_self
  generalize hadopted : written.adopt (written.jobs.stopAll s.now).1 = taken at htaken
  have hjobs : taken.jobs = { (s.jobs.stopAll s.now).1 with effects := [] } :=
    hadopted ▸ jobs_adopt
  have hcancelled : ∀ id ∈ s.jobs.runningIds, .job id ∈ taken.fired :=
    hadopted ▸ (hw.keeping.adopt hkept htells).2.2
  have htold : (taken.resume task (next (.ok (s.jobs.stopAll s.now).2))).Sound (.stopped :: h) :=
    htaken.told (fun _ heq => by cases heq) (fun _ heq => by cases heq) _
  have hanswer : s.answer .shutdown task next =
      taken.resume task (next (.ok (s.jobs.stopAll s.now).2)) := hadopted ▸ rfl
  rw [hanswer]
  refine htold.retire fun job hjob => ?_
  have hresumed := sameKeeping_resume taken task (next (.ok (s.jobs.stopAll s.now).2))
  have hfired : (taken.resume task (next (.ok (s.jobs.stopAll s.now).2))).fired = taken.fired :=
    (fired_of_bare (bare_resume _ _ _)).trans rfl
  rw [hresumed.jobs, hjobs] at hjob
  have hknown : job < s.jobs.nextId := JobTable.nextId_stopAll s.jobs s.now ▸ hjob
  unfold Dealt
  rw [hresumed.jobs, hjobs, hfired]
  exact (hs.keeping.tidy.jobs.past_stopAll hknown s.now).imp_left (hcancelled job)

/-- Whatever is answered, the accounts stay right. -/
theorem handle (hs : s.Answering mail h dones stage r task next) :
    (s.handle (.request r task next)).Sound (s.heardFor task r ++ h) := by
  cases hkept : s.kept with
  | true =>
    rw [handle_request hkept]
    cases r with
    | submit job =>
      simp only [heardFor, hkept, if_true]
      exact hs.submit hkept
    | abort job => exact hs.abort hkept
    | get id | watch id | list =>
      exact hs.told (fun _ heq => by cases heq) (fun _ heq => by cases heq) _
    | subscribe =>
      let reading : Hub := { s with jobEvents := s.jobEvents.subscribe.2 }
      have hg : Grows s reading :=
        ⟨rfl, rfl, Nat.le_refl _, Nat.le_refl _, List.Subset.refl _, fun _ hp => hp⟩
      have hreading : reading.Answering mail h dones stage .subscribe task next :=
        { hs with
          keeping := ⟨⟨hs.keeping.tidy.jobs, hs.keeping.tidy.settled,
            hs.keeping.tidy.readers.subscribe⟩, hs.keeping.shows, hs.keeping.unkept⟩
          accounts := hs.accounts.grow hg (List.Subset.refl _) fun _ hmem => .inl hmem }
      exact hreading.told (fun _ heq => by cases heq) (fun _ heq => by cases heq) _
    | shutdown =>
      simp only [heardFor, hkept, if_true]
      exact hs.shutdown hkept
  | false =>
    have hlost : s.handle (.request r task next) =
        s.resume task (next (.error .jobManagerUnavailable)) := if_neg (by simp [hkept])
    rw [hlost]
    by_cases hr : ∃ job, r = .submit job
    · obtain ⟨job, rfl⟩ := hr
      simp only [heardFor, hkept]
      obtain ⟨stage', htold⟩ := hs.fewer.told_error hs.posts.number hs.silent hs.posts.asksFor
        .jobManagerUnavailable
      exact sound_resume hs.keeping htold
    · have hsilent : s.heardFor task r = [] := by
        cases r with
        | submit job => exact absurd ⟨job, rfl⟩ hr
        | shutdown => simp [heardFor, hkept]
        | _ => rfl
      rw [hsilent]
      exact hs.told (fun job heq => hr ⟨job, heq⟩)
        (fun job _ hjob => hs.keeping.unkept hkept job hjob) _

end Answering

theorem Keeping.handle_report (hk : s.Keeping) (ha : s.Accounts s.letters h dones stage none)
    (r : JobReport) : (s.handle (.report r)).Sound h := by
  cases hkept : s.kept with
  | false =>
    rw [show s.handle (.report r) = s from if_neg (by simp [hkept])]
    exact ⟨hk, dones, stage, ha⟩
  | true =>
    have htells := hk.tidy.jobs.tells_report s.now r
    rw [show s.handle (.report r) = s.adopt (s.jobs.report s.now r) from if_pos hkept]
    refine ⟨(hk.adopt hkept htells).1, dones, stage, ?_⟩
    rw [letters_adopt]
    exact ha.adopt hk htells fun id hid => by cases hid

theorem grows_letters (s : Hub) (letters : List Letter) : Grows s ({ s with letters } : Hub) :=
  ⟨rfl, rfl, Nat.le_refl _, Nat.le_refl _, List.Subset.refl _, fun _ hp => hp⟩

theorem Accounts.letters_with (ha : s.Accounts mail h dones stage busy) (letters : List Letter) :
    ({ s with letters } : Hub).Accounts mail h dones stage busy :=
  ha.grow (grows_letters s letters) (List.Subset.refl _) fun _ hmem => .inl hmem

theorem Sound.request (hs : s.Sound h) : (s.does .request).Sound (s.heard .request ++ h) := by
  obtain ⟨hk, dones, stage, ha⟩ := hs
  cases hfind : s.letters.find? Letter.isRequest with
  | none =>
    simp only [does, handleFirst, heard, hfind]
    exact ⟨hk, dones, stage, ha⟩
  | some letter =>
    cases letter with
    | report r => exact absurd (List.find?_some hfind) (by simp [Letter.isRequest])
    | request r task next =>
      have hanswering : ({ s with letters := s.letters.eraseP Letter.isRequest } : Hub).Answering
          s.letters h dones stage r task next :=
        ⟨hk.same ⟨rfl, rfl, rfl, rfl⟩ (List.Subset.refl _), ha.letters_with _,
          List.mem_of_find?_eq_some hfind, List.eraseP_sublist, ha.silent hfind⟩
      rw [does_request hfind]
      simp only [heard, hfind]
      have hheard : ({ s with letters := s.letters.eraseP Letter.isRequest } : Hub).heardFor task
          r = s.heardFor task r := by
        cases r <;> rfl
      exact hheard ▸ hanswering.handle

theorem Sound.report (hs : s.Sound h) : (s.does .report).Sound h := by
  obtain ⟨hk, dones, stage, ha⟩ := hs
  cases hfind : s.letters.find? Letter.isReport with
  | none =>
    simp only [does, handleFirst, hfind]
    exact ⟨hk, dones, stage, ha⟩
  | some letter =>
    rw [does_report hfind]
    cases letter with
    | request r task next =>
      exact absurd (List.find?_some hfind) (by simp [Letter.isReport, Letter.isRequest])
    | report r =>
      have hopened : ({ s with letters := s.letters.eraseP Letter.isReport } : Hub).Keeping :=
        hk.same ⟨rfl, rfl, rfl, rfl⟩ (List.Subset.refl _)
      exact hopened.handle_report ((ha.letters_with _).fewer List.eraseP_sublist) r

end Hub

end Switchboard
