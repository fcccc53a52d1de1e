import Switchboard.Proofs.Hub.Answers

namespace Switchboard

/-- Makes nothing new, sends nothing and cancels nothing. -/
def Action.IsSimple : Action → Prop
  | .newToken _ | .cancel _ | .call _ _ _ | .launch _ _ | .fire _ _ | .ask _ | .report _
  | .spawn _ | .become _ | .panic _ => False
  | _ => True

theorem Action.IsSimple.grants_eq {action : Action} (h : action.IsSimple)
    (reply : action.Reply) : action.grants reply = [] := by
  cases action with
  | newToken parent => exact h.elim
  | _ => rfl

namespace Hub

variable {s s' : Hub} {mail : List Letter} {h : Chronicle} {dones : List (Nat × Nat)}
  {stage : Nat → CallStage} {busy : Option Nat} {k : Nat}

section Actions

variable {action : Action} {next : action.Reply → Routine Outcome} {t : Task}

def after (s : Hub) (k : Nat) (action : Action) (next : action.Reply → Routine Outcome) :
    Routine Outcome :=
  (s.step k action next).2.getD (.act action next)

theorem after_simple (h : action.IsSimple) (s : Hub) (k : Nat) :
    s.after k action next = .act action next ∨ ∃ reply, s.after k action next = next reply := by
  cases action with
  | sleepUntil time =>
    simp only [after, step]
    split
    next => exact .inr ⟨(), rfl⟩
    next => exact .inl rfl
  | gate name =>
    simp only [after, step]
    split
    next => exact .inl rfl
    next =>
      split
      next => exact .inr ⟨(), rfl⟩
      next => exact .inl rfl
  | awaitCancel token =>
    simp only [after, step]
    split
    next => exact .inr ⟨(), rfl⟩
    next => exact .inl rfl
  | awaitEither first second =>
    simp only [after, step]
    split
    next => exact .inr ⟨true, rfl⟩
    next =>
      split
      next => exact .inr ⟨false, rfl⟩
      next => exact .inl rfl
  | awaitJob id deadline =>
    simp only [after, step]
    split
    next ending _ => exact .inr ⟨ending, rfl⟩
    next =>
      split
      next => exact .inl rfl
      next =>
        split
        next => exact .inr ⟨_, rfl⟩
        next => exact .inl rfl
  | join task =>
    simp only [after, step]
    cases s.ended.lookup task with
    | none => exact .inl rfl
    | some outcome => exact .inr ⟨outcome, rfl⟩
  | push n =>
    simp only [after, step]
    split
    next => exact .inr ⟨false, rfl⟩
    next =>
      split
      next => exact .inl rfl
      next => exact .inr ⟨_, rfl⟩
  | rest n time =>
    simp only [after, step]
    split
    next => exact .inr ⟨false, rfl⟩
    next =>
      split
      next => exact .inr ⟨_, rfl⟩
      next => exact .inl rfl
  | forward n outlet =>
    simp only [after, step]
    split
    next more _ => exact .inr ⟨more, rfl⟩
    next => exact .inl rfl
  | newToken _ | cancel _ | call _ _ _ | launch _ _ | fire _ _ | ask _ | report _ | spawn _
  | become _ | panic _ => exact h.elim
  | _ => exact .inr ⟨_, rfl⟩

/-- A guard and a timer go on as they should. -/
structure Steps (s : Hub) (h : Chronicle) (k : Nat) (routine : Routine Outcome) : Prop where
  guard : ∀ task ward, .armed task ward ∈ h → ward.guard = k → s.Guarding ward routine
  calm : ∀ timer ∈ s.lockTimers, timer.2 = k → routine.Calm

theorem Steps.grow {routine : Routine Outcome} (hs : s.Steps h k routine) (hg : Grows s s')
    (htimers : s'.lockTimers = s.lockTimers) : s'.Steps h k routine where
  guard task ward hward heq := (hs.guard task ward hward heq).mono hg.fired hg.dealt
  calm timer hmem := hs.calm timer (htimers ▸ hmem)

theorem Steps.cons {routine : Routine Outcome} (hs : s.Steps h k routine) (e : Happening)
    (he : ∀ task ward, e = .armed task ward → ward.guard ≠ k) : s.Steps (e :: h) k routine where
  guard task ward hward heq := by
    rcases List.mem_cons.mp hward with hnew | hward
    · exact absurd heq (he task ward hnew.symm)
    · exact hs.guard task ward hward heq
  calm := hs.calm

/-- The token for the end of a call is not cancelled before there is nothing left to abort. -/
theorem Accounts.dealt_of_done (ha : s.Accounts mail h dones stage busy) {ward : Ward}
    {task : Nat} (hp : s.Posted h dones busy task ward) (hc : s.isCancelled ward.done = true) :
    s.Dealt ward.job := by
  obtain ⟨n, hdone, hmem⟩ := hp.done
  rw [hdone] at hc
  have hfired : .root n ∈ s.fired := by simpa [isCancelled, Token.isCancelled] using hc
  rcases ha.fired _ hfired with ⟨_, heq, -⟩ | ⟨n', job, heq, hmem', hdealt⟩
  · cases heq
  · cases heq
    -- a number is given for the end of one call only
    have hkeys := List.inj_on_of_nodup_map ha.numbered.1 hmem hmem' rfl
    cases hkeys
    exact hdealt

theorem Accounts.steps (ha : s.Accounts mail h dones stage none) (hk : s.Keeping)
    (ht : t ∈ s.tasks) (hroutine : t.routine = .act action next) :
    s.Steps h t.id (s.after t.id action next) where
  guard task ward hward hguard := by
    have hp := ha.wards task ward hward
    have hkeeps := hp.keeps t ht hguard.symm (by simp)
    rw [hroutine] at hkeeps
    cases hkeeps with
    | waits =>
      simp only [after, step]
      split
      next hcancelled => exact .asks hcancelled fun _ => rfl
      next =>
        split
        next hdone => exact .ended (ha.dealt_of_done hp hdone)
        next => exact .waits
    | asks hcancelled hnext =>
      simp only [after, step]
      split
      next => exact .asks hcancelled hnext
      next hkept =>
        obtain ⟨isNew, hanswered⟩ := hp.answered
        have hdealt := hk.unkept (Bool.not_eq_true _ ▸ hkept) ward.job (ha.known _ _ _ _ hanswered)
        exact hnext (.error .jobManagerUnavailable) ▸ .ended hdealt
  calm timer hmem heq := by
    have hcalm := (ha.timers timer hmem).2.2 t ht heq.symm (by simp)
    rw [hroutine] at hcalm
    cases action with
    | now => exact hcalm.2 _
    | sleepUntil time =>
      simp only [after, step]
      split
      next => exact hcalm.2 _
      next => exact hcalm
    | report r =>
      simp only [after, step]
      exact hcalm.2 ()
    | _ => exact hcalm.1.elim

theorem Accounts.proceed {routine : Routine Outcome}
    (ha : s.Accounts mail h dones stage (some k)) (hsteps : s.Steps h k routine)
    (hminds : s.Minds h dones k (stage k) routine) :
    (s.goOn k routine).Accounts mail h dones stage none :=
  ha.goOn fun _ _ _ => ⟨hminds, hsteps.guard, hsteps.calm⟩

theorem Accounts.act_simple (ha : s.Accounts mail h dones stage none) (hk : s.Keeping)
    (ht : t ∈ s.tasks) (hroutine : t.routine = .act action next) (hsimple : action.IsSimple)
    (hsilent : ∀ r next, .request r t.id next ∉ mail) :
    ∃ stage', (s.goOn t.id (s.after t.id action next)).Accounts mail h dones stage' none := by
  have hsteps := ha.steps hk ht hroutine
  have hleft := ha.leave (ha.bound t ht) hsilent
  obtain ⟨own, hlawful, hown, hstaged⟩ := ha.minds t ht (by simp)
  rw [hroutine] at hlawful
  generalize hst : stage t.id = st at hlawful hstaged
  cases hlawful with
  | plain hplain hnext =>
    refine ⟨stage, hleft.proceed hsteps ⟨own, ?_, hown, hst ▸ hstaged⟩⟩
    rw [hst]
    have hafter : s.after t.id action next = .act action next ∨
      ∃ reply, s.after t.id action next = next reply := after_simple hsimple s t.id
    rcases hafter with hstays | ⟨reply, hreply⟩
    · rw [hstays]
      exact .plain hplain hnext
    · have hlawful := hnext reply
      rwa [hsimple.grants_eq, List.nil_append, ← hreply] at hlawful
  | submit | name | guard | close => exact hsimple.elim
  | @await _ done job next hnext =>
    obtain ⟨hcaller, hknown, hdone⟩ := hstaged
    cases hending : s.board.ending? job with
    | none =>
      have hstays : s.after t.id (.awaitJob job none) next = .act (.awaitJob job none) next := by
        simp only [after, step, hending, Option.getD_none]
      rw [hstays] at hsteps ⊢
      refine ⟨stage, hleft.proceed hsteps ⟨own, ?_, hown, ?_⟩⟩ <;> rw [hst]
      · exact .await hnext
      · exact ⟨hcaller, hknown, hdone⟩
    | some ending =>
      have htold : s.after t.id (.awaitJob job none) next = next ending := by
        simp only [after, step, hending, Option.getD_some]
      rw [htold] at hsteps ⊢
      refine ⟨_, (hleft.restage (.closing job done) (fun timer hmem heq => ?_)
        fun caller job' hold => ?_).proceed hsteps ⟨own, ?_, hown, ?_⟩⟩
      · have hidle := (ha.timers timer hmem).2.1
        rw [heq, hst] at hidle
        cases hidle
      · rw [hst] at hold
        rcases hold with hold | ⟨_, hold⟩ <;> cases hold
      · rw [Function.update_self]
        exact hnext ending
      · rw [Function.update_self]
        exact ⟨hcaller, hk.dealt hknown hending, hdone⟩

theorem Accounts.act_idle (ha : s.Accounts mail h dones stage none) (hk : s.Keeping)
    (ht : t ∈ s.tasks) (hroutine : t.routine = .act action next)
    (hsilent : ∀ r next, .request r t.id next ∉ mail) (hidle : stage t.id = .idle)
    (hcaller : h.caller? t.id = none) {own : List Token}
    (hown : ∀ token ∈ own, token.IsCaller s.nextNumber dones)
    (hlawful : (s.after t.id action next).Lawful own .idle) :
    (s.goOn t.id (s.after t.id action next)).Accounts mail h dones stage none := by
  refine (ha.leave (ha.bound t ht) hsilent).proceed (ha.steps hk ht hroutine) ⟨own, ?_, hown, ?_⟩
  · rw [hidle]
    exact hlawful
  · rw [hidle]
    exact hcaller

theorem Accounts.act_newToken {parent : Option Token} {next : Token → Routine Outcome}
    (ha : s.Accounts mail h dones stage none) (hk : s.Keeping) (ht : t ∈ s.tasks)
    (hroutine : t.routine = .act (.newToken parent) next)
    (hsilent : ∀ r next, .request r t.id next ∉ mail) :
    ∃ dones' stage', ({ s with nextNumber := s.nextNumber + 1 } : Hub).goOn t.id
      (s.after t.id (.newToken parent) next) |>.Accounts mail h dones' stage' none := by
  have hsteps := (ha.steps hk ht hroutine).grow (grows_number s 1) rfl
  have hleft := ha.leave (ha.bound t ht) hsilent
  obtain ⟨own, hlawful, hown, hstaged⟩ := ha.minds t ht (by simp)
  rw [hroutine] at hlawful
  generalize hst : stage t.id = st at hlawful hstaged
  cases hlawful with
  | plain hplain hnext =>
    have hg := hleft.grow (grows_number s 1) (List.Subset.refl _) fun _ hmem => .inl hmem
    refine ⟨dones, stage, hg.proceed hsteps ?_⟩
    rw [hst]
    refine ⟨_, hnext _, fun token hmem => ?_, hstaged⟩
    rcases List.mem_cons.mp hmem with rfl | hmem
    · cases parent with
      | none =>
        intro n hn
        cases hn
        refine ⟨Nat.lt_succ_self _, fun job hdone => ?_⟩
        exact Nat.lt_irrefl _ (ha.numbered.2 _ hdone)
      | some parent => exact (hown parent (hplain parent rfl)).mono (Nat.le_succ _)
    · exact (hown token hmem).mono (Nat.le_succ _)
  | @name _ caller job _ hcaller hnext =>
    refine ⟨_, _, ((hleft.newDone job).restage (.named caller job (.root s.nextNumber))
      (fun timer hmem heq => ?_) fun caller' job' hold => ?_).proceed hsteps ?_⟩
    · have hidle := (ha.timers timer hmem).2.1
      rw [heq, hst] at hidle
      cases hidle
    · rw [hst] at hold
      rcases hold with hold | ⟨_, hold⟩
      · cases hold
        exact .inr (.inr ⟨_, rfl⟩)
      · cases hold
    · rw [Function.update_self]
      exact ⟨own, hnext _, fun token hmem => (hown token hmem).newDone job, hstaged.1, hstaged.2,
        s.nextNumber, rfl, List.mem_cons_self⟩

theorem Accounts.act_cancel {token : Token} {next : Unit → Routine Outcome}
    (ha : s.Accounts mail h dones stage none) (hk : s.Keeping) (ht : t ∈ s.tasks)
    (hroutine : t.routine = .act (.cancel token) next)
    (hsilent : ∀ r next, .request r t.id next ∉ mail) :
    ∃ stage', ({ s with fired := token :: s.fired } : Hub).goOn t.id
      (s.after t.id (.cancel token) next) |>.Accounts mail h dones stage' none := by
  have hleft := ha.leave (ha.bound t ht) hsilent
  obtain ⟨own, hlawful, hown, hstaged⟩ := ha.minds t ht (by simp)
  rw [hroutine] at hlawful
  generalize hst : stage t.id = st at hlawful hstaged
  cases hlawful with
  | plain hplain => exact hplain.elim
  | @close _ _ job _ hnext =>
    obtain ⟨hcaller, hdealt, n, rfl, hmem⟩ := hstaged
    have hg : Grows s { s with fired := .root n :: s.fired } :=
      ⟨rfl, rfl, Nat.le_refl _, Nat.le_refl _, List.subset_cons_self _ _, fun _ hp => hp⟩
    have hsteps := (ha.steps hk ht hroutine).grow hg rfl
    refine ⟨_, ((hleft.fire (.inr ⟨n, job, rfl, hmem, hdealt⟩)).restage .idle (fun _ _ _ => rfl)
      fun caller' job' hold => ?_).proceed hsteps ?_⟩
    · rw [hst] at hold
      rcases hold with hold | ⟨_, hold⟩ <;> cases hold
    · rw [Function.update_self]
      exact ⟨own, hnext, hown, hcaller⟩

theorem Accounts.act_call {name : String} {args : List Json} {caller : Option Token}
    {next : Except PanicPayload (Except CallError Json) → Routine Outcome}
    (ha : s.Accounts mail h dones stage none) (hk : s.Keeping) (ht : t ∈ s.tasks)
    (hroutine : t.routine = .act (.call name args caller) next)
    (hsilent : ∀ r next, .request r t.id next ∉ mail) :
    ∃ stage', (s.goOn t.id (s.after t.id (.call name args caller) next)).Accounts mail
      (s.heardOf t.id (.call name args caller) ++ h) dones stage' none := by
  have hsteps := ha.steps hk ht hroutine
  have hleft := ha.leave (ha.bound t ht) hsilent
  obtain ⟨own, hlawful, hown, hstaged⟩ := ha.minds t ht (by simp)
  rw [hroutine] at hlawful
  generalize hst : stage t.id = st at hlawful hstaged
  cases hlawful with
  | plain hplain hnext =>
    have hcall : (s.after t.id (.call name args caller) next).Lawful own
        (s.exchange.stageOf name args caller) :=
      (Exchange.lawful_callWait ha.exchange name args hplain).attempt.bind fun a _ hsub =>
        (hnext a).mono hsub
    by_cases hsubmits : ∃ token, caller = some token ∧ s.exchange.submits name args = true
    · obtain ⟨token, rfl, hsubmits⟩ := hsubmits
      have hheard : s.heardOf t.id (.call name args (some token)) = [.called t.id token] := by
        simp only [heardOf, hsubmits, if_true]
      rw [hheard]
      simp only [Exchange.stageOf, hsubmits, if_true] at hcall
      refine ⟨_, ((hleft.hear (.called t.id token) (fun k hne => if_neg fun heq =>
        hne (congrArg some heq)) (fun _ _ heq => by cases heq) (fun _ _ heq => by cases heq)
        fun _ _ _ heq => by cases heq).restage (.called token) (fun timer hmem heq => ?_)
        fun caller' job' hold => ?_).proceed (hsteps.cons _ fun _ _ heq => by cases heq) ?_⟩
      · have hcalm := (ha.timers timer hmem).2.2 t ht heq.symm (by simp)
        rw [hroutine] at hcalm
        exact hcalm.1.elim
      · rw [hst] at hold
        rcases hold with hold | ⟨_, hold⟩ <;> cases hold
      · rw [Function.update_self]
        exact ⟨own, hcall, hown, if_pos rfl⟩
    · have hheard : s.heardOf t.id (.call name args caller) = [] := by
        cases caller with
        | none => rfl
        | some token => exact if_neg fun htrue => hsubmits ⟨token, rfl, htrue⟩
      have hidle : s.exchange.stageOf name args caller = .idle := by
        cases caller with
        | none => rfl
        | some token => exact if_neg fun htrue => hsubmits ⟨token, rfl, htrue⟩
      rw [hidle] at hcall
      rw [hheard]
      exact ⟨stage, ha.act_idle hk ht hroutine hsilent hst hstaged hown hcall⟩

theorem posted_enlist (hbound : ∀ t ∈ s.tasks, t.id < s.nextNumber) (ward : Ward)
    (hguard : ward.guard = s.nextNumber)
    (hanswered : ∃ isNew, h.Answered k ward.caller ward.job isNew)
    (hcaller : ward.caller.IsCaller s.nextNumber dones)
    (hdone : ∃ n, ward.done = .root n ∧ (n, ward.job) ∈ dones) (busy : Option Nat) :
    (s.enlist (Exchange.runGuard ward.job ward.caller ward.done) none).Posted h dones busy k
      ward := by
  have hlast : ∀ t ∈ (s.enlist (Exchange.runGuard ward.job ward.caller ward.done) none).tasks,
      t.id = ward.guard → t.routine = Exchange.runGuard ward.job ward.caller ward.done ∧
        t.fallback = none := by
    intro t ht hid
    rcases List.mem_append.mp ht with ht | ht
    · exact absurd (hid.trans hguard) (Nat.ne_of_lt (hbound t ht))
    · rw [List.mem_singleton.mp ht]
      exact ⟨rfl, rfl⟩
  exact {
    number := hguard ▸ Nat.lt_succ_self _
    answered := hanswered
    caller := hcaller.mono (Nat.le_succ _)
    done := hdone
    there := .inl ⟨_, List.mem_append_right _ List.mem_cons_self, hguard.symm⟩
    keeps := fun t ht hid _ => by
      rw [(hlast t ht hid).1]
      exact .waits
    steady := fun t ht hid => (hlast t ht hid).2 }

theorem Accounts.act_spawn {work : Work} {next : Nat → Routine Outcome}
    (ha : s.Accounts mail h dones stage none) (ht : t ∈ s.tasks)
    (hroutine : t.routine = .act (.spawn work) next)
    (hsilent : ∀ r next, .request r t.id next ∉ mail) :
    ∃ stage', ((s.enlist (s.exchange.work work) none).goOn t.id
      (s.after t.id (.spawn work) next)).Accounts mail (s.heardOf t.id (.spawn work) ++ h) dones
      stage' none := by
  have hnot : ∀ task ward, .armed task ward ∈ h → ward.guard ≠ t.id := fun task ward hward heq => by
    have hkeeps := (ha.wards task ward hward).keeps t ht heq.symm (by simp)
    rw [hroutine] at hkeeps
    cases hkeeps
  have hcalm : ∀ timer ∈ s.lockTimers, timer.2 ≠ t.id := fun timer hmem heq => by
    have hcalm := (ha.timers timer hmem).2.2 t ht heq.symm (by simp)
    rw [hroutine] at hcalm
    exact hcalm.1.elim
  have hsteps : (s.enlist (s.exchange.work work) none).Steps h t.id
      (s.after t.id (.spawn work) next) :=
    ⟨fun task ward hward heq => absurd heq (hnot task ward hward),
      fun timer hmem heq => absurd heq (hcalm timer hmem)⟩
  have hleft := ha.leave (ha.bound t ht) hsilent
  obtain ⟨own, hlawful, hown, hstaged⟩ := ha.minds t ht (by simp)
  rw [hroutine] at hlawful
  generalize hst : stage t.id = st at hlawful hstaged
  cases hlawful with
  | plain hplain hnext =>
    have hnew : (s.enlist (s.exchange.work work) none).Accounts mail h dones stage (some t.id) :=
      hleft.enlist (Exchange.lawful_work ha.exchange hplain) hown fun f hf => by cases hf
    have hheard : s.heardOf t.id (.spawn work) = [] := by
      cases work with
      | guard job caller done => exact hplain.elim
      | _ => rfl
    rw [hheard]
    refine ⟨stage, hnew.proceed hsteps ?_⟩
    rw [hst]
    exact ⟨own, hnext _, fun token hmem => (hown token hmem).mono (Nat.le_succ _), hstaged⟩
  | @guard _ caller done job _ hcaller hnext =>
    obtain ⟨hnone, hanswered, hdone⟩ := hstaged
    have hlawful : (s.exchange.work (.guard job caller done)).Lawful [] .idle :=
      Exchange.lawful_runGuard job caller done
    have hnew : (s.enlist (s.exchange.work (.guard job caller done)) none).Accounts mail h dones
        stage (some t.id) :=
      hleft.enlist hlawful (fun token hmem => by cases hmem) fun f hf => by cases hf
    let ward : Ward := ⟨s.nextNumber, caller, job, done⟩
    have hposted : (s.enlist (s.exchange.work (.guard job caller done)) none).Posted
        (.armed t.id ward :: h) dones (some t.id) t.id ward :=
      posted_enlist ha.bound ward rfl (hanswered.imp fun _ hh => hh.cons _) (hown caller hcaller)
        hdone _
    have hheard : s.heardOf t.id (.spawn (.guard job caller done)) = [.armed t.id ward] := rfl
    rw [hheard]
    obtain ⟨isNew, hanswer⟩ := hanswered
    refine ⟨_, ((hnew.hear (.armed t.id ward) (fun _ _ => rfl) (fun _ _ heq => by cases heq)
      (fun task ward' heq => ?_) fun _ _ _ heq => by cases heq).restage (.guarded job done)
      (fun timer hmem heq => absurd heq (hcalm timer hmem)) fun caller' job' hold => ?_).proceed
      (hsteps.cons _ fun task ward' heq => ?_) ?_⟩
    · cases heq
      exact hposted
    · rw [hst] at hold
      rcases hold with hold | ⟨_, hold⟩ <;> cases hold
      exact .inl ⟨ward, List.mem_cons_self, rfl, rfl⟩
    · cases heq
      exact Nat.ne_of_gt (ha.bound t ht)
    · rw [Function.update_self]
      exact ⟨own, hnext _, fun token hmem => (hown token hmem).mono (Nat.le_succ _), hnone,
        ha.known _ _ _ _ hanswer, hdone⟩

theorem goOn_same (hids : (s.tasks.map Task.id).Nodup) (ht : t ∈ s.tasks) :
    s.goOn t.id t.routine = s := by
  have htasks : (s.goOn t.id t.routine).tasks = s.tasks := by
    refine (List.map_congr_left fun t' ht' => ?_).trans (List.map_id s.tasks)
    split
    next heq =>
      have hsame := List.inj_on_of_nodup_map hids ht' ht heq
      rw [hsame]
      rfl
    next => rfl
  exact congrArg (fun tasks => ({ s with tasks } : Hub)) htasks

/-- A caller is cancelled only with the job in whose name its token was made. -/
theorem Accounts.job_of_cancelled (ha : s.Accounts mail h dones stage busy) {token : Token}
    (hcaller : token.IsCaller s.nextNumber dones) (hc : s.isCancelled token = true) :
    ∃ job, token.job? = some job ∧ .job job ∈ s.fired := by
  unfold isCancelled at hc
  induction token with
  | job id => exact ⟨id, rfl, by simpa [Token.isCancelled] using hc⟩
  | root n =>
    rcases ha.fired (.root n) (by simpa [Token.isCancelled] using hc) with
      ⟨_, heq, -⟩ | ⟨n', job, heq, hmem, -⟩
    · cases heq
    · cases heq
      exact absurd hmem ((hcaller n rfl).2 job)
  | child n parent ih =>
    simp only [Token.isCancelled, Bool.or_eq_true, List.contains_iff_mem] at hc
    rcases hc with hmem | hc
    · rcases ha.fired _ hmem with ⟨_, heq, -⟩ | ⟨_, _, heq, -⟩ <;> cases heq
    · exact ih hcaller hc

/-- There is a reason for every abort that is asked for. -/
theorem Accounts.blames_of_ask {job : Nat}
    {next : Except CallError (Except CallError Unit) → Routine Outcome}
    (ha : s.Accounts mail h dones stage none) (ht : t ∈ s.tasks)
    (hroutine : t.routine = .act (.ask (.abort job)) next) :
    Chronicle.Blames (.asked t.id job :: h) job := by
  by_cases hguard : ∃ task ward, .armed task ward ∈ h ∧ ward.guard = t.id
  · obtain ⟨task, ward, hward, heq⟩ := hguard
    have hp := ha.wards task ward hward
    have hkeeps := hp.keeps t ht heq.symm (by simp)
    rw [hroutine] at hkeeps
    cases hkeeps with
    | asks hcancelled _ =>
      obtain ⟨parent, hparent, hfired⟩ := ha.job_of_cancelled hp.caller hcancelled
      have hblamed : h.Blames parent := by
        rcases ha.fired _ hfired with ⟨job, hjob, hb⟩ | ⟨_, _, hjob, -⟩ <;> cases hjob
        exact hb
      obtain ⟨isNew, hanswered⟩ := hp.answered
      exact (hblamed.submitted ⟨task, ward.caller, hanswered, hparent⟩).cons _
  · exact .inr ⟨job, ⟨[], t.id, h, rfl, fun k ward hward heq => hguard ⟨k, ward, hward, heq⟩⟩,
      .refl⟩

theorem Accounts.hear_asked {job : Nat}
    {next : Except CallError (Except CallError Unit) → Routine Outcome}
    (ha : s.Accounts mail h dones stage none) (ht : t ∈ s.tasks)
    (hroutine : t.routine = .act (.ask (.abort job)) next) :
    s.Accounts mail (.asked t.id job :: h) dones stage none :=
  ha.hear _ (fun _ _ => rfl) (fun _ _ heq => by cases heq; exact ha.blames_of_ask ht hroutine)
    (fun _ _ heq => by cases heq) fun _ _ _ heq => by cases heq

theorem Sound.act_ask {r : JobRequest} {next : Except CallError r.Reply → Routine Outcome}
    (hs : s.Sound h) (ht : t ∈ s.tasks) (hroutine : t.routine = .act (.ask r) next)
    (hsilent : ∀ r next, .request r t.id next ∉ s.letters) :
    ∃ dones stage, ((s.imprint t.id (.ask r) next).goOn t.id
      (s.after t.id (.ask r) next)).Accounts (s.imprint t.id (.ask r) next).letters
      (s.heardOf t.id (.ask r) ++ h) dones stage none := by
  obtain ⟨hk, dones, stage, ha⟩ := hs
  cases hkept : s.kept with
  | true =>
    have hafter : s.after t.id (.ask r) next = t.routine := by
      simp only [after, step, hkept, if_true, Option.getD_none, hroutine]
    have himprint : s.imprint t.id (.ask r) next =
        { s with letters := s.letters ++ [.request r t.id next] } := if_pos hkept
    have hsent : ∀ {h : Chronicle}, s.Accounts s.letters h dones stage none →
        (∀ job, r = .abort job → h.Blames job) →
        ((s.imprint t.id (.ask r) next).goOn t.id (s.after t.id (.ask r) next)).Accounts
          (s.imprint t.id (.ask r) next).letters h dones stage none := by
      intro h ha hblames
      have hsame := goOn_same
        (s := { s with letters := s.letters ++ [.request r t.id next] }) ha.ids ht
      rw [hafter, himprint, hsame]
      exact (ha.send ht hroutine hsilent hblames).letters_with _
    refine ⟨dones, stage, ?_⟩
    cases r with
    | abort job =>
      refine hsent (ha.hear_asked ht hroutine) fun job' heq => ?_
      cases heq
      exact ha.blames_of_ask ht hroutine
    | submit job =>
      have hheard : s.heardOf t.id (.ask (.submit job)) = [] := if_pos hkept
      rw [hheard]
      exact hsent ha fun _ heq => by cases heq
    | _ => exact hsent ha fun _ heq => by cases heq
  | false =>
    have hafter : s.after t.id (.ask r) next = next (.error .jobManagerUnavailable) := by
      simp only [after, step, hkept]
      rfl
    have himprint : s.imprint t.id (.ask r) next = s := if_neg (by simp [hkept])
    rw [hafter, himprint]
    cases r with
    | submit job =>
      have hheard : s.heardOf t.id (.ask (.submit job)) = [.refused t.id] :=
        if_neg (by simp [hkept])
      rw [hheard]
      exact ⟨dones, ha.told_error (ha.bound t ht) hsilent (.inl ⟨t, ht, rfl, hroutine⟩) _⟩
    | abort job =>
      exact ⟨dones, stage, (ha.hear_asked ht hroutine).told_other (ha.bound t ht) hsilent
        (.inl ⟨t, ht, rfl, hroutine⟩) (fun _ heq => by cases heq)
        (fun job _ hjob => hk.unkept hkept job hjob) _⟩
    | _ =>
      exact ⟨dones, stage, ha.told_other (ha.bound t ht) hsilent (.inl ⟨t, ht, rfl, hroutine⟩)
        (fun _ heq => by cases heq) (fun _ heq => by cases heq) _⟩

theorem Accounts.act_report {r : JobReport} {next : Unit → Routine Outcome}
    (ha : s.Accounts s.letters h dones stage none) (hk : s.Keeping) (ht : t ∈ s.tasks)
    (hroutine : t.routine = .act (.report r) next)
    (hsilent : ∀ r next, .request r t.id next ∉ s.letters) :
    ((s.imprint t.id (.report r) next).goOn t.id (s.after t.id (.report r) next)).Accounts
      (s.imprint t.id (.report r) next).letters h dones stage none := by
  obtain ⟨own, hlawful, hown, hstaged⟩ := ha.minds t ht (by simp)
  rw [hroutine] at hlawful
  generalize hst : stage t.id = st at hlawful hstaged
  cases hlawful with
  | plain hplain hnext =>
    have hgone := ha.act_idle hk ht hroutine hsilent hst hstaged hown (hnext ())
    cases hkept : s.kept with
    | true =>
      have himprint : s.imprint t.id (.report r) next =
          { s with letters := s.letters ++ [.report r] } := if_pos hkept
      rw [himprint]
      exact (hgone.sendReport r).letters_with _
    | false =>
      have himprint : s.imprint t.id (.report r) next = s := if_neg (by simp [hkept])
      rw [himprint]
      exact hgone

theorem Sound.act_accounts (hs : s.Sound h) (ht : t ∈ s.tasks)
    (hroutine : t.routine = .act action next)
    (hsilent : ∀ r next, .request r t.id next ∉ s.letters) :
    ∃ dones stage, ((s.imprint t.id action next).goOn t.id (s.after t.id action next)).Accounts
      (s.imprint t.id action next).letters (s.heardOf t.id action ++ h) dones stage none := by
  have ⟨hk, dones, stage, ha⟩ := hs
  obtain ⟨own, hlawful, hown, hstaged⟩ := ha.minds t ht (by simp)
  rw [hroutine] at hlawful
  generalize hst : stage t.id = st at hlawful hstaged
  cases action with
  | newToken parent => exact ha.act_newToken hk ht hroutine hsilent
  | cancel token => exact ⟨dones, ha.act_cancel hk ht hroutine hsilent⟩
  | call name args caller => exact ⟨dones, ha.act_call hk ht hroutine hsilent⟩
  | ask r => exact hs.act_ask ht hroutine hsilent
  | report r => exact ⟨dones, stage, ha.act_report hk ht hroutine hsilent⟩
  | spawn work =>
    obtain ⟨stage', hspawned⟩ := ha.act_spawn ht hroutine hsilent
    have hletters := congrArg Hub.letters (bare_spawn s (s.exchange.work work) none)
    have hmail : (s.imprint t.id (.spawn work) next).letters = s.letters := hletters
    rw [hmail]
    exact ⟨dones, stage', hspawned.of_bare
      (bare_goOn_congr (bare_spawn s (s.exchange.work work) none) t.id _)⟩
  | launch name args =>
    cases hlawful with
    | plain hplain hnext =>
      exact ⟨dones, stage, ha.act_idle hk ht hroutine hsilent hst hstaged hown
        ((Exchange.lawful_call ha.exchange name args).attempt.bind fun a _ hsub =>
          (hnext a).mono hsub)⟩
  | fire event payload =>
    cases hlawful with
    | plain hplain hnext =>
      exact ⟨dones, stage, ha.act_idle hk ht hroutine hsilent hst hstaged hown
        ((Exchange.lawful_fire ha.exchange event payload).attempt.bind fun a _ hsub =>
          (hnext a).mono hsub)⟩
  | become work =>
    cases hlawful with
    | plain hplain _ =>
      exact ⟨dones, stage, ha.act_idle hk ht hroutine hsilent hst hstaged hown
        (Exchange.lawful_work ha.exchange hplain)⟩
  | panic payload =>
    cases hlawful with
    | plain _ _ =>
      exact ⟨dones, stage, ha.act_idle hk ht hroutine hsilent hst hstaged hown
        (.done (Outcome.panicked payload))⟩
  | _ =>
    obtain ⟨stage', hgone⟩ := ha.act_simple hk ht hroutine trivial hsilent
    exact ⟨dones, stage', hgone⟩

theorem fired_imprint (s : Hub) (k : Nat) : s.fired ⊆ (s.imprint k action next).fired := by
  cases action with
  | cancel token => exact List.subset_cons_self _ _
  | ask r | report r =>
    simp only [imprint]
    split <;> exact List.Subset.refl _
  | spawn work =>
    have hfired := congrArg Hub.fired (bare_spawn s (s.exchange.work work) none)
    have hsame : (s.imprint k (.spawn work) next).fired = s.fired := hfired
    rw [hsame]
    exact List.Subset.refl _
  | _ => exact List.Subset.refl _

theorem silent_of_asking (hasking : s.asking k = false) :
    ∀ r next, .request r k next ∉ s.letters := by
  intro r next hmem
  have hof := List.any_eq_false.mp hasking _ hmem
  simp [Letter.isOf] at hof

theorem Sound.act (hs : s.Sound h) (k : Nat) : (s.does (.act k)).Sound (s.heard (.act k) ++ h) := by
  cases ht : s.task? k with
  | none =>
    simp only [does, Hub.act, heard, ht]
    exact hs
  | some t =>
    cases hasking : s.asking k with
    | true =>
      simp only [does, Hub.act, heard, ht, hasking, if_true]
      exact hs
    | false =>
      have hmem := List.mem_of_find?_eq_some ht
      have hid : t.id = k := by simpa using List.find?_some ht
      subst hid
      have hsilent := silent_of_asking hasking
      simp only [does, Hub.act, heard, ht, hasking, Bool.false_eq_true, if_false]
      cases hroutine : t.routine with
      | done outcome =>
        obtain ⟨hk, dones, stage, ha⟩ := hs
        have hidle : stage t.id = .idle := by
          obtain ⟨own, hlawful, -⟩ := ha.minds t hmem (by simp)
          rw [hroutine] at hlawful
          generalize stage t.id = st at hlawful
          cases hlawful
          rfl
        have hgone : (s.dropTask t.id).Sound h := by
          refine ⟨hk.same ⟨rfl, rfl, rfl, rfl⟩ (List.Subset.refl _), dones, stage,
            ha.dropTask (.inr ⟨hsilent, hidle⟩) fun task ward hward heq => ?_⟩
          have hkeeps := (ha.wards task ward hward).keeps t hmem heq.symm (by simp)
          rw [hroutine] at hkeeps
          cases hkeeps with
          | ended hdealt => exact hdealt
        exact hgone.of_bare (bare_finishTask s t.id outcome)
      | act action next =>
        have hgone : ((s.imprint t.id action next).goOn t.id
            (s.after t.id action next)).Sound (s.heardOf t.id action ++ h) :=
          ⟨hs.keeping.same ((sameKeeping_imprint s t.id action next).trans ⟨rfl, rfl, rfl, rfl⟩)
            (fired_imprint s t.id), hs.act_accounts hmem hroutine hsilent⟩
        exact hgone.of_bare (bare_run_one s t.id action next)

end Actions

def left (s : Hub) (k id : Nat) : Hub :=
  (if s.kept then { s with letters := s.letters ++ [.report (.finished id (.error .aborted))] }
    else s).dropTask k

theorem left_kept (hkept : s.kept = true) (k id : Nat) : s.left k id =
    ({ s with letters := s.letters ++ [.report (.finished id (.error .aborted))] } :
      Hub).dropTask k := by
  unfold left
  rw [if_pos hkept]

theorem left_gone (hkept : s.kept = false) (k id : Nat) : s.left k id = s.dropTask k := by
  unfold left
  rw [if_neg (by simp [hkept])]

theorem bare_dropTask_congr (hbare : s.bare = s'.bare) (k : Nat) :
    (s.dropTask k).bare = (s'.dropTask k).bare := by
  have hdrop : ∀ s : Hub, (s.dropTask k).bare = s.bare.dropTask k := by
    intro s
    simp only [Hub.dropTask, withdraw, bare, List.filter_map]
    rfl
  rw [hdrop, hdrop, hbare]

theorem bare_run_reportDropped (s : Hub) (k id : Nat) :
    (run limit s k (Exchange.reportDropped id)).bare = (s.left k id).bare := by
  have hrun : run limit s k (Exchange.reportDropped id) =
      ((if s.kept then s.send (.report (.finished id (.error .aborted))) else s).disarm
        k).finishTask k (.returned .null) := rfl
  rw [hrun]
  refine (bare_finishTask _ _ _).trans (bare_dropTask_congr ?_ k)
  rw [bare_disarm]
  split
  next => exact bare_send s _
  next => rfl

theorem dropTask_updateTask (s : Hub) (k : Nat) (f : Task → Task) (hf : ∀ t, (f t).id = t.id) :
    (s.updateTask k f).dropTask k = s.dropTask k := by
  have htasks : (s.tasks.map fun t => if t.id = k then f t else t).filter (fun t => t.id != k) =
      s.tasks.filter fun t => t.id != k := by
    induction s.tasks with
    | nil => rfl
    | cons t rest ih =>
      by_cases hid : t.id = k
      · simpa [hid, hf t] using ih
      · simpa [hid] using ih
  exact congrArg (fun tasks => ({ s.withdraw k with tasks } : Hub)) htasks

theorem bare_fallBack {t : Task} (ht : s.task? k = some t) {token : Token} {id : Nat}
    (hf : t.fallback = some (token, Exchange.reportDropped id)) (hc : s.isCancelled token = true) :
    (s.fallBack k).bare = (s.left k id).bare := by
  have hfound : (s.task? k).bind (·.fallback) = some (token, Exchange.reportDropped id) := by
    rw [ht]
    exact hf
  simp only [fallBack, hfound, hc, if_true]
  refine (bare_run_reportDropped _ k id).trans ?_
  have hsame : ∀ s : Hub, (((s.withdraw k).updateTask k fun t =>
      { t with fallback := none }).dropTask k).bare = (s.dropTask k).bare := by
    intro s
    have hdropped := congrArg bare
      (dropTask_updateTask (s.withdraw k) k (fun t => { t with fallback := none }) fun _ => rfl)
    exact hdropped
  cases hkept : s.kept with
  | true =>
    rw [left_kept hkept, left_kept (s := (s.withdraw k).updateTask k _) hkept]
    exact hsame { s with letters := s.letters ++ [.report (.finished id (.error .aborted))] }
  | false =>
    rw [left_gone hkept, left_gone (s := (s.withdraw k).updateTask k _) hkept]
    exact hsame s

theorem Sound.fall (hs : s.Sound h) (k : Nat) :
    (s.does (.fall k)).Sound (s.heard (.fall k) ++ h) := by
  cases hfound : (s.task? k).bind (·.fallback) with
  | none =>
    simp only [does, fallBack, heard, hfound]
    exact hs
  | some f =>
    obtain ⟨token, routine⟩ := f
    cases hc : s.isCancelled token with
    | false =>
      simp only [does, fallBack, heard, hfound, hc]
      exact hs
    | true =>
      obtain ⟨t, ht, hf⟩ := Option.bind_eq_some_iff.mp hfound
      have hmem := List.mem_of_find?_eq_some ht
      have hid : t.id = k := by simpa using List.find?_some ht
      obtain ⟨hk, dones, stage, ha⟩ := hs
      obtain ⟨id, heq⟩ := ha.fallbacks t hmem _ hf
      cases heq
      simp only [heard, hfound, hc, if_true]
      have hheard : s.Accounts s.letters (.dropped k :: h) dones stage none :=
        ha.hear (.dropped k) (fun _ _ => rfl) (fun _ _ heq => by cases heq)
          (fun _ _ heq => by cases heq) fun _ _ _ heq => by cases heq
      have hguard : ∀ task ward, .armed task ward ∈ (.dropped k :: h : Chronicle) →
          ward.guard = k → s.Dealt ward.job := by
        intro task ward hward heq
        have hsteady := (hheard.wards task ward hward).steady t hmem (hid.trans heq.symm)
        rw [hf] at hsteady
        cases hsteady
      have hdropped := hheard.dropTask (.inl List.mem_cons_self) hguard
      have hleft : (s.left k id).Sound (.dropped k :: h) := by
        unfold left
        split
        next =>
          exact ⟨hk.same ⟨rfl, rfl, rfl, rfl⟩ (List.Subset.refl s.fired), dones, stage,
            (hdropped.sendReport _).letters_with _⟩
        next =>
          exact ⟨hk.same ⟨rfl, rfl, rfl, rfl⟩ (List.Subset.refl s.fired), dones, stage, hdropped⟩
      exact hleft.of_bare (bare_fallBack ht hf hc)

theorem Accounts.jobEvents_with (ha : s.Accounts mail h dones stage busy)
    (jobEvents : Broadcaster Event) :
    ({ s with jobEvents } : Hub).Accounts mail h dones stage busy := by
  have hg : Grows s { s with jobEvents } :=
    ⟨rfl, rfl, Nat.le_refl _, Nat.le_refl _, List.Subset.refl _, fun _ hp => hp⟩
  exact ha.grow hg (List.Subset.refl _) fun _ hmem => .inl hmem

theorem Sound.does (hs : s.Sound h) {stroke : Stroke}
    (hclient : ∀ routine, stroke = .begin routine → routine.Lawful [] .idle) :
    (s.does stroke).Sound (s.heard stroke ++ h) := by
  cases stroke with
  | begin routine =>
    obtain ⟨hk, dones, stage, ha⟩ := hs
    have hnew : (s.enlist routine none).Sound h :=
      ⟨hk.same ⟨rfl, rfl, rfl, rfl⟩ (List.Subset.refl _), dones, stage,
        ha.enlist (hclient routine rfl) (fun token hmem => by cases hmem) fun f hf => by cases hf⟩
    exact hnew.of_bare (bare_spawn s routine none)
  | act task => exact hs.act task
  | fall task => exact hs.fall task
  | request => exact hs.request
  | report => exact hs.report
  | around other => exact hs.of_bare (bare_around s other)
  | take receiver =>
    obtain ⟨hk, dones, stage, ha⟩ := hs
    have htold := hk.tidy.told (.take receiver)
    exact ⟨⟨htold.tidy, hk.shows, hk.unkept⟩, dones, stage, ha.jobEvents_with _⟩
  | drop receiver =>
    obtain ⟨hk, dones, stage, ha⟩ := hs
    have htold := hk.tidy.told (.drop receiver)
    exact ⟨⟨htold.tidy, hk.shows, hk.unkept⟩, dones, stage, ha.jobEvents_with _⟩

theorem Sound.plays (hs : s.Sound h) (strokes : List Stroke)
    (hclients : ∀ routine, .begin routine ∈ strokes → routine.Lawful [] .idle) :
    (s.plays strokes).Sound (s.retell h strokes) := by
  induction strokes generalizing s h with
  | nil => exact hs
  | cons stroke rest ih =>
    refine ih (hs.does fun routine heq => hclients routine ?_) fun routine hmem =>
      hclients routine (List.mem_cons_of_mem _ hmem)
    rw [heq]
    exact List.mem_cons_self

theorem sound_build {b : Builder} (hb : b.registry.Lawful) : b.build.Sound [] where
  keeping := by
    refine ⟨tidy_build b, fun _ => ⟨⟨fun id x hx => ?_, fun id hid => ?_⟩, rfl⟩, fun hnot => ?_⟩
    · cases hx
    · cases hid
    · cases hnot
  accounts := ⟨[], fun _ => .idle,
    { exchange := hb
      ids := List.nodup_nil
      bound := fun _ ht => by cases ht
      acting := fun _ heq => by cases heq
      fresh := fun _ _ => ⟨rfl, rfl⟩
      minds := fun _ ht => by cases ht
      fallbacks := fun _ ht => by cases ht
      senders := List.nodup_nil
      letters := fun _ _ _ hl => by cases hl
      timers := fun _ hl => by cases hl
      asked := fun _ _ hmem => by cases hmem
      wards := fun _ _ hmem => by cases hmem
      fired := fun _ hmem => by cases hmem
      numbered := ⟨List.nodup_nil, fun _ hd => by cases hd⟩
      known := fun _ _ _ _ hh => absurd hh Chronicle.not_answered_nil
      cares := fun _ _ _ _ hh => absurd hh Chronicle.not_answered_nil }⟩

/-- In every run, the accounts are right. -/
theorem sound {b : Builder} (hb : b.registry.Lawful) {strokes : List Stroke}
    (hclients : ∀ routine, .begin routine ∈ strokes → routine.Lawful [] .idle) :
    (b.build.plays strokes).Sound (b.build.chronicle strokes) :=
  (sound_build hb).plays strokes hclients

end Hub

end Switchboard
