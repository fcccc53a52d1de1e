import Switchboard.Calls.Dispatch

namespace Switchboard

/-- How far a call has got that runs as a job and is made for a caller. -/
inductive CallStage where
  | idle
  | called (caller : Token)
  | answered (caller : Token) (job : Nat)
  | named (caller : Token) (job : Nat) (done : Token)
  | guarded (job : Nat) (done : Token)
  | closing (job : Nat) (done : Token)

def Work.IsPlain (own : List Token) : Work → Prop
  | .thread _ _ context => context.token ∈ own
  | .guard _ _ _ => False
  | .rounds _ _ _ | .forward _ _ => True

namespace Action

/-- What may be done in the name of some tokens, besides the calls that run as jobs. -/
def IsPlain (own : List Token) : Action → Prop
  | .newToken parent => ∀ token, parent = some token → token ∈ own
  | .cancel _ => False
  | .call _ _ caller => ∀ token, caller = some token → token ∈ own
  | .spawn work | .become work => work.IsPlain own
  | _ => True

def grants : (action : Action) → action.Reply → List Token
  | .newToken _, token => [token]
  | _, _ => []

theorem IsPlain.mono {own more : List Token} {action : Action} (h : action.IsPlain own)
    (hsub : own ⊆ more) : action.IsPlain more := by
  cases action with
  | newToken parent => exact fun token heq => hsub (h token heq)
  | call method args caller => exact fun token heq => hsub (h token heq)
  | spawn work | become work =>
    cases work with
    | thread method args context => exact hsub h
    | _ => exact h
  | cancel token => exact h.elim
  | _ => trivial

end Action

namespace Routine

variable {α γ : Type} {own more : List Token} {stage : CallStage}

/-- A routine goes by the rules from a stage of a call on, having some tokens of its own. -/
inductive Lawful : List Token → CallStage → Routine α → Prop where
  | done {own : List Token} (a : α) : Lawful own .idle (done a)
  | plain {own : List Token} {action : Action} {next : action.Reply → Routine α}
      (hplain : action.IsPlain own)
      (hnext : ∀ reply, Lawful (action.grants reply ++ own) .idle (next reply)) :
      Lawful own .idle (act action next)
  | submit {own : List Token} {caller : Token} {job : NewJob JobBody}
      {next : Except CallError Nat → Routine α} (hcaller : caller ∈ own)
      (hok : ∀ id, Lawful own (.answered caller id) (next (.ok id)))
      (herror : ∀ e, Lawful own .idle (next (.error e))) :
      Lawful own (.called caller) (act (.ask (.submit job)) next)
  | name {own : List Token} {caller : Token} {job : Nat} {next : Token → Routine α}
      (hcaller : caller ∈ own) (hnext : ∀ token, Lawful own (.named caller job token) (next token)) :
      Lawful own (.answered caller job) (act (.newToken none) next)
  | guard {own : List Token} {caller done : Token} {job : Nat} {next : Nat → Routine α}
      (hcaller : caller ∈ own) (hnext : ∀ task, Lawful own (.guarded job done) (next task)) :
      Lawful own (.named caller job done) (act (.spawn (.guard job caller done)) next)
  | await {own : List Token} {done : Token} {job : Nat}
      {next : Except CallError JobSnapshot → Routine α}
      (hnext : ∀ ending, Lawful own (.closing job done) (next ending)) :
      Lawful own (.guarded job done) (act (.awaitJob job none) next)
  | close {own : List Token} {done : Token} {job : Nat} {next : Unit → Routine α}
      (hnext : Lawful own .idle (next ())) : Lawful own (.closing job done) (act (.cancel done) next)

namespace Lawful

theorem mono {r : Routine α} (h : r.Lawful own stage) (hsub : own ⊆ more) :
    r.Lawful more stage := by
  induction h generalizing more with
  | done a => exact .done a
  | plain hplain _ ih =>
    exact .plain (hplain.mono hsub) fun reply => ih reply
      (List.append_subset.mpr ⟨List.subset_append_left _ _,
        List.subset_append_of_subset_right _ hsub⟩)
  | submit hcaller _ _ ihok iherror =>
    exact .submit (hsub hcaller) (fun id => ihok id hsub) fun e => iherror e hsub
  | name hcaller _ ih => exact .name (hsub hcaller) fun token => ih token hsub
  | guard hcaller _ ih => exact .guard (hsub hcaller) fun task => ih task hsub
  | await _ ih => exact .await fun ending => ih ending hsub
  | close _ ih => exact .close (ih hsub)

theorem bind {r : Routine α} {f : α → Routine γ} (h : r.Lawful own stage)
    (hf : ∀ a more, own ⊆ more → (f a).Lawful more .idle) : (r.bind f).Lawful own stage := by
  induction h with
  | done a => exact hf a _ (List.Subset.refl _)
  | plain hplain _ ih =>
    exact .plain hplain fun reply => ih reply fun a more hsub =>
      hf a more (List.Subset.trans (List.subset_append_right _ _) hsub)
  | submit hcaller _ _ ihok iherror =>
    exact .submit hcaller (fun id => ihok id hf) fun e => iherror e hf
  | name hcaller _ ih => exact .name hcaller fun token => ih token hf
  | guard hcaller _ ih => exact .guard hcaller fun task => ih task hf
  | await _ ih => exact .await fun ending => ih ending hf
  | close _ ih => exact .close (ih hf)

theorem attempt {r : Routine α} (h : r.Lawful own stage) : r.attempt.Lawful own stage := by
  induction h with
  | done a => exact .done _
  | @plain own action next hplain hnext ih =>
    cases action with
    | panic p => exact .done _
    | _ => exact .plain hplain ih
  | submit hcaller _ _ ihok iherror => exact .submit hcaller ihok iherror
  | name hcaller _ ih => exact .name hcaller ih
  | guard hcaller _ ih => exact .guard hcaller ih
  | await _ ih => exact .await ih
  | close _ ih => exact .close ih

/-- What is lawful for whatever tokens is lawful after any routine. -/
theorem bind_of_forall {r : Routine α} {f : α → Routine γ} (h : r.Lawful own stage)
    (hf : ∀ a more, (f a).Lawful more .idle) : (r.bind f).Lawful own stage :=
  h.bind fun a more _ => hf a more

theorem ask {action : Action} (hplain : action.IsPlain own) : (ask action).Lawful own .idle :=
  .plain hplain fun reply => .done reply

theorem log (level : LogLevel) (text : String) : (log level text).Lawful own .idle :=
  ask trivial

theorem sleep (ms : Nat) : (sleep ms).Lawful own .idle :=
  .plain trivial fun _ => ask trivial

end Lawful

end Routine

structure Handler.Lawful (own : List Token) (h : Handler) : Prop where
  prepare : h.prepare.Lawful own .idle
  run : h.run.Lawful own .idle

structure Registry.Lawful (r : Registry) : Prop where
  methods : ∀ name m, r.method? name = some m → ∀ (context : CallContext) args,
    (m.body context args).Lawful [context.token]
  hooks : ∀ event, ∀ hook ∈ r.handlers event, ∀ payload, (hook.run payload).Lawful []

namespace Script

variable {own : List Token} {role : ScriptRole}

theorem lawful_step (hrole : ∀ token, role.caller? = some token → token ∈ own) (scope : Scope)
    (statement : Statement) : (step role scope statement).Lawful own .idle := by
  cases statement with
  | gate name | note v | launch method args | abort id | fire event payload =>
    exact .plain trivial fun _ => .done _
  | sleep ms => exact (Routine.Lawful.sleep ms).bind_of_forall fun _ _ => .done _
  | call method args | tryCall method args =>
    exact .plain hrole fun _ => .done _
  | progress percent description | job | checkCancelled | awaitCancel =>
    simp only [step]
    split
    next => exact .done _
    next =>
      first
        | exact .done _
        | exact .plain trivial fun _ => .done _
  | isCancelled =>
    simp only [step]
    split
    next => exact .done _
    next => exact .plain trivial fun _ => .done _
  | _ => exact .done _

/-- Whatever a script says, it goes by the rules. -/
theorem lawful_runFrom (args : List Json) (script : Script)
    (hrole : ∀ token, role.caller? = some token → token ∈ own) (last : Json) :
    (runFrom role args script last).Lawful own .idle := by
  induction script generalizing last own with
  | nil => exact .done _
  | cons statement rest ih =>
    refine (lawful_step hrole _ statement).bind fun turn more hsub => ?_
    cases turn with
    | goOn last => exact ih (fun token heq => hsub (hrole token heq)) last
    | stop outcome => exact .done outcome

theorem lawful_run (script : Script) (args : List Json)
    (hrole : ∀ token, role.caller? = some token → token ∈ own) :
    (script.run role args).Lawful own .idle := lawful_runFrom args script hrole .null

end Script

structure Registry.Scripted (r : Registry) : Prop where
  methods : ∀ name m, r.method? name = some m → ∃ script : Script, ∀ context args,
    m.body context args = { run := script.run (.method context) args }
  hooks : ∀ event, ∀ hook ∈ r.handlers event, ∃ script : Script, ∀ payload, ∃ args,
    hook.run payload = { run := script.run .hook args }

theorem Registry.Scripted.lawful {r : Registry} (h : r.Scripted) : r.Lawful where
  methods name m hm context args := by
    obtain ⟨script, hbody⟩ := h.methods name m hm
    rw [hbody context args]
    refine ⟨.done (), script.lawful_run args fun token heq => ?_⟩
    cases heq
    exact List.mem_singleton_self _
  hooks event hook hmem payload := by
    obtain ⟨script, hrun⟩ := h.hooks event hook hmem
    obtain ⟨args, heq⟩ := hrun payload
    rw [heq]
    exact ⟨.done (), script.lawful_run args fun token heq => by cases heq⟩

namespace Exchange

variable {x : Exchange} {m : Method} {own : List Token} {args : List Json}

theorem lawful_attribute (method : String) (raw : List Json) (r : Except CallError Json) :
    (attribute? method raw r).Lawful own .idle := by
  cases r with
  | ok v => exact .done _
  | error e =>
    cases e with
    | failed text => exact (Routine.Lawful.log _ _).bind_of_forall fun _ _ => .done _
    | _ => exact (Routine.Lawful.log _ _).bind_of_forall fun _ _ => .done _

theorem lawful_handler {α : Type} {h : Handler} {f : Except PanicPayload Outcome → Routine α}
    (hh : h.Lawful own) (hf : ∀ a more, own ⊆ more → (f a).Lawful more .idle) :
    (h.prepare.bind fun _ => h.run.attempt.bind f).Lawful own .idle :=
  hh.prepare.bind fun _ _ hsub => (hh.run.attempt.mono hsub).bind fun a more' hsub' =>
    hf a more' (List.Subset.trans hsub hsub')

theorem lawful_execute {context : CallContext} (hcontext : context.token ∈ own)
    (hbody : (m.body context args).Lawful [context.token]) :
    (execute m args context).Lawful own .idle := by
  unfold execute
  split
  next =>
    exact .plain hcontext fun _ =>
      .plain trivial fun _ => .done _
  next =>
    exact (lawful_handler hbody fun _ _ _ => .done _).mono (by simpa using hcontext)

theorem lawful_invoke {context : CallContext} (hcontext : context.token ∈ own)
    (hbody : ∀ args, (m.body context args).Lawful [context.token]) :
    (invoke m args context).Lawful own .idle := by
  unfold invoke
  split
  next => exact .done _
  next cleaned _ =>
    refine (Routine.Lawful.log _ _).bind fun _ more hsub => ?_
    exact (lawful_execute (hsub hcontext) (hbody cleaned)).bind_of_forall fun r _ =>
      lawful_attribute m.name args r

theorem lawful_submit (x : Exchange) (m : Method) (o : JobOptions) (args : List Json) :
    (x.submit m o args).Lawful own .idle := by
  unfold submit
  split
  next => exact .done _
  next => exact .plain trivial fun _ => .done _

theorem lawful_jobResult (id : Nat) : (jobResult id).Lawful own .idle :=
  .plain trivial fun _ => .done _

theorem lawful_call (hx : x.registry.Lawful) (name : String) (args : List Json) :
    (x.call name args).Lawful own .idle := by
  unfold call
  split
  next => exact .done _
  next m hm =>
    split
    next =>
      refine .plain (fun token heq => by cases heq) fun token => ?_
      exact lawful_invoke List.mem_cons_self fun args => hx.methods name m hm { token } args
    next o _ => exact (lawful_submit x m o args).bind_of_forall fun _ _ => .done _

def submits (x : Exchange) (name : String) (args : List Json) : Bool :=
  (x.registry.method? name).any fun m => m.job.isSome && (Accepts.clean m.accepts args).isOk

/-- Where a call begins: if it is made for a caller, the job that it submits is to be put under
guard. -/
def stageOf (x : Exchange) (name : String) (args : List Json) : Option Token → CallStage
  | none => .idle
  | some caller => if x.submits name args then .called caller else .idle

theorem lawful_callWait (hx : x.registry.Lawful) (name : String) (args : List Json)
    {caller : Option Token} (hcaller : ∀ token, caller = some token → token ∈ own) :
    (x.callWait name args caller).Lawful own (x.stageOf name args caller) := by
  cases hm : x.registry.method? name with
  | none =>
    have hstage : x.stageOf name args caller = .idle := by
      cases caller <;> simp [stageOf, submits, hm]
    rw [hstage]
    simp only [callWait, hm]
    exact .done _
  | some m =>
    cases hjob : m.job with
    | none =>
      have hstage : x.stageOf name args caller = .idle := by
        cases caller <;> simp [stageOf, submits, hm, hjob]
      rw [hstage]
      simp only [callWait, hm, hjob]
      refine .plain hcaller fun token => ?_
      exact lawful_invoke List.mem_cons_self fun args => hx.methods name m hm { token } args
    | some o =>
      cases hclean : Accepts.clean m.accepts args with
      | error errors =>
        have hstage : x.stageOf name args caller = .idle := by
          cases caller <;> simp [stageOf, submits, hm, hjob, hclean, Except.isOk, Except.toBool]
        rw [hstage]
        simp only [callWait, hm, hjob, submit, hclean]
        exact .done _
      | ok cleaned =>
        simp only [callWait, hm, hjob, submit, hclean]
        cases caller with
        | none =>
          refine .plain trivial fun reply => ?_
          cases reply with
          | error e => exact .done _
          | ok id => exact lawful_jobResult id
        | some caller =>
          have hstage : x.stageOf name args (some caller) = .called caller := by
            simp [stageOf, submits, hm, hjob, hclean, Except.isOk, Except.toBool]
          have hown := hcaller caller rfl
          rw [hstage]
          refine .submit hown (fun id => ?_) fun e => .done _
          refine .name hown fun token => .guard hown fun task => .await fun ending => ?_
          exact .close (.done _)

theorem lawful_runHooks (hooks : List Hook) (event : String) (payload : Json)
    (hhooks : ∀ hook ∈ hooks, (hook.run payload).Lawful []) (report : FireReport) :
    (runHooks event payload hooks report).Lawful own .idle := by
  induction hooks generalizing report own with
  | nil => exact .done _
  | cons hook rest ih =>
    have hrest : ∀ hook ∈ rest, (hook.run payload).Lawful [] := fun hook hmem =>
      hhooks hook (List.mem_cons_of_mem _ hmem)
    refine (lawful_handler (hhooks hook List.mem_cons_self) fun a more _ => ?_).mono
      (List.nil_subset _)
    split
    next => exact ih hrest _
    next => exact (Routine.Lawful.log _ _).bind_of_forall fun _ _ => ih hrest _

theorem lawful_fire (hx : x.registry.Lawful) (event : String) (payload : Json) :
    (x.fire event payload).Lawful own .idle :=
  (lawful_runHooks _ event payload (fun hook hmem => hx.hooks event hook hmem payload)
    {}).bind_of_forall fun _ _ => (Routine.Lawful.log _ _).bind_of_forall fun _ _ => .done _

theorem lawful_runJob (hx : x.registry.Lawful) (id : Nat) (body : JobBody) :
    (x.runJob id body).Lawful [.job id] .idle := by
  refine Routine.Lawful.bind ?_ fun _ _ _ => .plain trivial fun _ => .done _
  cases body with
  | method name args raw =>
    simp only [jobOutcome]
    split
    next => exact .done _
    next m hm =>
      have hbody : (execute m args ⟨.job id, some id⟩).Lawful [.job id] .idle :=
        lawful_execute List.mem_cons_self (hx.methods name m hm _ args)
      exact hbody.bind_of_forall fun r _ => lawful_attribute name raw r
  | script body args =>
    have hrun : (body.run (.job id) args).Lawful [.job id] .idle :=
      Script.lawful_run body args fun token heq => by cases heq
    refine hrun.bind_of_forall fun outcome _ => ?_
    cases outcome with
    | panicked p => exact .plain trivial fun reply => nomatch reply
    | _ => exact .done _

theorem lawful_runLockTimer (id ms : Nat) : (runLockTimer id ms).Lawful own .idle :=
  (Routine.Lawful.sleep ms).bind_of_forall fun _ _ => .plain trivial fun _ => .done _

theorem lawful_runGuard (job : Nat) (caller done : Token) :
    (runGuard job caller done).Lawful own .idle := by
  refine .plain trivial fun cancelled => ?_
  cases cancelled with
  | true => exact .plain trivial fun _ => .done _
  | false => exact .done _

theorem lawful_playRound (source : EventSource) : (playRound source).Lawful own .idle := by
  cases source with
  | realtime r => exact .plain trivial fun _ => .done _
  | playlist p =>
    refine .plain trivial fun _ => Routine.Lawful.bind_of_forall (r := playItem p _) ?_
      fun _ _ => .done _
    unfold playItem
    split
    next => exact .done _
    next => exact .done _
    next => exact .plain trivial fun _ => .done _
    all_goals exact .done _

theorem lawful_runRounds (subscription : Nat) (name : String) (source : EventSource) :
    (runRounds subscription name source).Lawful own .idle := by
  have hstopped : ∀ {own}, (sourceStopped name).Lawful own .idle :=
    (Routine.Lawful.log _ _).bind_of_forall fun _ _ => .done _
  refine .plain trivial fun begun => ?_
  cases begun with
  | false => exact hstopped
  | true =>
    refine (lawful_playRound source).bind_of_forall fun played _ =>
      .plain trivial fun _ => ?_
    cases played.1 with
    | panicked p => exact .done _
    | failed e => exact (Routine.Lawful.log _ _).bind_of_forall fun _ _ => hstopped
    | payload v | nothing =>
      refine .plain trivial fun sent => ?_
      cases sent with
      | false => exact hstopped
      | true =>
        refine .plain trivial fun now => .plain trivial fun rested => ?_
        cases rested with
        | false => exact hstopped
        | true => exact .plain trivial fun reply => nomatch reply

theorem lawful_runForward (subscription outlet : Nat) :
    (runForward subscription outlet).Lawful own .idle := by
  refine .plain trivial fun more => ?_
  cases more with
  | true => exact .plain trivial fun reply => nomatch reply
  | false => exact .done _

/-- Work that may be given out goes by the rules. -/
theorem lawful_work (hx : x.registry.Lawful) {work : Work} (hplain : work.IsPlain own) :
    (x.work work).Lawful own .idle := by
  cases work with
  | thread method args context =>
    simp only [Exchange.work]
    split
    next => exact .done _
    next m hm =>
      have hbody := hx.methods method m hm context args
      exact (hbody.prepare.bind fun _ _ hsub => hbody.run.mono hsub).mono
        fun token hmem => List.mem_singleton.mp hmem ▸ hplain
  | guard job caller done => exact hplain.elim
  | rounds subscription name source => exact lawful_runRounds subscription name source
  | forward subscription outlet => exact lawful_runForward subscription outlet

end Exchange

end Switchboard
