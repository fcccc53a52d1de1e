import Switchboard.Proofs.Calls.Lawful
import Switchboard.Proofs.Calls.Traces

namespace Switchboard

namespace Action

def IsModest : Action → Prop
  | .report (.finished _ _) => False
  | _ => True

def IsCommon : Action → Prop
  | .become _ | .report (.finished _ _) => False
  | _ => True

theorem IsCommon.modest {action : Action} (h : action.IsCommon) : action.IsModest := by
  cases action with
  | report r =>
    cases r with
    | finished id outcome => exact h.elim
    | _ => trivial
  | _ => trivial

end Action

namespace Routine

variable {α γ : Type} {p q : Action → Prop} {r : Routine α}

/-- All actions that a routine can come to are such. -/
def Each (p : Action → Prop) : Routine α → Prop
  | done _ => True
  | act action next => p action ∧ ∀ reply, (next reply).Each p

abbrev Common (r : Routine α) : Prop := r.Each Action.IsCommon

abbrev Modest (r : Routine α) : Prop := r.Each Action.IsModest

theorem Each.mono (h : r.Each p) (hpq : ∀ action, p action → q action) : r.Each q := by
  induction r with
  | done a => trivial
  | act action next ih => exact ⟨hpq action h.1, fun reply => ih reply (h.2 reply)⟩

theorem Each.bind {f : α → Routine γ} (h : r.Each p) (hf : ∀ a, (f a).Each p) :
    (r.bind f).Each p := by
  induction r with
  | done a => exact hf a
  | act action next ih => exact ⟨h.1, fun reply => ih reply (h.2 reply)⟩

theorem Each.attempt (h : r.Each p) : r.attempt.Each p := by
  induction r with
  | done a => trivial
  | act action next ih =>
    cases action with
    | panic payload => trivial
    | _ => exact ⟨h.1, fun reply => ih reply (h.2 reply)⟩

theorem Common.log (level : LogLevel) (text : String) : (log level text).Common :=
  ⟨trivial, fun _ => trivial⟩

theorem Common.modest (h : r.Common) : r.Modest := h.mono fun _ hp => hp.modest

end Routine

structure Handler.Common (h : Handler) : Prop where
  prepare : h.prepare.Common
  run : h.run.Common

/-- Every body that is registered leaves to the hub what is the hub's. -/
structure Registry.Common (r : Registry) : Prop where
  methods : ∀ name m, r.method? name = some m → ∀ context args, (m.body context args).Common
  hooks : ∀ event, ∀ hook ∈ r.handlers event, ∀ payload, (hook.run payload).Common

namespace Script

variable {role : ScriptRole}

theorem common_step (scope : Scope) (statement : Statement) :
    (step role scope statement).Common := by
  cases statement with
  | gate name | note v | launch method args | abort id | fire event payload | call method args
  | tryCall method args => exact ⟨trivial, fun _ => trivial⟩
  | sleep ms => exact ⟨trivial, fun _ => ⟨trivial, fun _ => trivial⟩⟩
  | progress percent description | job | checkCancelled | awaitCancel | isCancelled =>
    simp only [step]
    split
    next => trivial
    next =>
      first
        | trivial
        | exact ⟨trivial, fun _ => trivial⟩
  | _ => trivial

theorem common_runFrom (args : List Json) (script : Script) (last : Json) :
    (runFrom role args script last).Common := by
  induction script generalizing last with
  | nil => trivial
  | cons statement rest ih =>
    refine (common_step _ statement).bind fun turn => ?_
    cases turn with
    | goOn last => exact ih last
    | stop outcome => trivial

theorem common_run (script : Script) (args : List Json) : (script.run role args).Common :=
  common_runFrom args script .null

end Script

theorem Registry.Scripted.common {r : Registry} (h : r.Scripted) : r.Common where
  methods name m hm context args := by
    obtain ⟨script, hbody⟩ := h.methods name m hm
    rw [hbody context args]
    exact ⟨trivial, script.common_run args⟩
  hooks event hook hmem payload := by
    obtain ⟨script, hrun⟩ := h.hooks event hook hmem
    obtain ⟨args, heq⟩ := hrun payload
    rw [heq]
    exact ⟨trivial, script.common_run args⟩

namespace Exchange

variable {x : Exchange} {m : Method} {args : List Json}

theorem common_attribute (method : String) (raw : List Json) (r : Except CallError Json) :
    (attribute? method raw r).Common := by
  cases r with
  | ok v => trivial
  | error e =>
    cases e with
    | failed text => exact (Routine.Common.log _ _).bind fun _ => trivial
    | _ => exact (Routine.Common.log _ _).bind fun _ => trivial

theorem common_execute {context : CallContext} (hbody : (m.body context args).Common) :
    (execute m args context).Common := by
  unfold execute
  split
  next => exact ⟨trivial, fun _ => ⟨trivial, fun _ => trivial⟩⟩
  next => exact hbody.prepare.bind fun _ => hbody.run.attempt.bind fun _ => trivial

theorem common_invoke {context : CallContext} (hbody : ∀ args, (m.body context args).Common) :
    (invoke m args context).Common := by
  unfold invoke
  split
  next => trivial
  next cleaned _ =>
    exact (Routine.Common.log _ _).bind fun _ =>
      (common_execute (hbody cleaned)).bind fun r => common_attribute m.name args r

theorem common_submit (x : Exchange) (m : Method) (o : JobOptions) (args : List Json) :
    (x.submit m o args).Common := by
  unfold submit
  split
  next => trivial
  next => exact ⟨trivial, fun _ => trivial⟩

theorem common_call (hx : x.registry.Common) (name : String) (args : List Json) :
    (x.call name args).Common := by
  unfold call
  split
  next => trivial
  next m hm =>
    split
    next => exact ⟨trivial, fun _ => common_invoke fun args => hx.methods name m hm _ args⟩
    next o _ => exact (common_submit x m o args).bind fun _ => trivial

theorem common_callWait (hx : x.registry.Common) (name : String) (args : List Json)
    (caller : Option Token) : (x.callWait name args caller).Common := by
  unfold callWait
  split
  next => trivial
  next m hm =>
    split
    next => exact ⟨trivial, fun _ => common_invoke fun args => hx.methods name m hm _ args⟩
    next o _ =>
      refine (common_submit x m o args).bind fun submitted => ?_
      cases submitted with
      | error e => trivial
      | ok id =>
        cases caller with
        | none => exact ⟨trivial, fun _ => trivial⟩
        | some caller =>
          exact ⟨trivial, fun _ => ⟨trivial, fun _ => ⟨trivial, fun _ => ⟨trivial, fun _ =>
            trivial⟩⟩⟩⟩

theorem common_runHooks (event : String) (payload : Json) (hooks : List Hook)
    (hhooks : ∀ hook ∈ hooks, (hook.run payload).Common) (report : FireReport) :
    (runHooks event payload hooks report).Common := by
  induction hooks generalizing report with
  | nil => trivial
  | cons hook rest ih =>
    have hrest : ∀ hook ∈ rest, (hook.run payload).Common := fun hook hmem =>
      hhooks hook (List.mem_cons_of_mem _ hmem)
    obtain ⟨hprepare, hrun⟩ := hhooks hook List.mem_cons_self
    refine hprepare.bind fun _ => hrun.attempt.bind fun a => ?_
    split
    next => exact ih hrest _
    next => exact (Routine.Common.log _ _).bind fun _ => ih hrest _

theorem common_fire (hx : x.registry.Common) (event : String) (payload : Json) :
    (x.fire event payload).Common :=
  (common_runHooks event payload _ (fun hook hmem => hx.hooks event hook hmem payload) {}).bind
    fun _ => (Routine.Common.log _ _).bind fun _ => trivial

theorem common_jobOutcome (hx : x.registry.Common) (id : Nat) (body : JobBody) :
    (x.jobOutcome id body).Common := by
  cases body with
  | method name args raw =>
    simp only [jobOutcome]
    split
    next => trivial
    next m hm =>
      exact (common_execute (hx.methods name m hm _ args)).bind fun r => common_attribute name raw r
  | script body args =>
    refine (Script.common_run body args).bind fun outcome => ?_
    cases outcome with
    | panicked p => exact ⟨trivial, fun reply => reply.elim⟩
    | _ => trivial

theorem common_runLockTimer (id ms : Nat) : (runLockTimer id ms).Common :=
  ⟨trivial, fun _ => ⟨trivial, fun _ => ⟨trivial, fun _ => trivial⟩⟩⟩

theorem common_thread (hx : x.registry.Common) (name : String) (args : List Json)
    (context : CallContext) : (x.work (.thread name args context)).Common := by
  simp only [work]
  split
  next => trivial
  next m hm =>
    obtain ⟨hprepare, hrun⟩ := hx.methods name m hm context args
    exact hprepare.bind fun _ => hrun

theorem modest_runRounds (subscription : Nat) (name : String) (source : EventSource) :
    (runRounds subscription name source).Modest := by
  have hstopped : (sourceStopped name).Modest := ⟨trivial, fun _ => trivial⟩
  have hplayed : (playRound source).Modest := by
    cases source with
    | realtime r => exact ⟨trivial, fun _ => trivial⟩
    | playlist p =>
      refine ⟨trivial, fun _ => Routine.Each.bind (r := playItem p _) ?_ fun _ => trivial⟩
      unfold playItem
      split
      next => trivial
      next => trivial
      next => exact ⟨trivial, fun _ => trivial⟩
      all_goals trivial
  refine ⟨trivial, fun begun => ?_⟩
  cases begun with
  | false => exact hstopped
  | true =>
    refine hplayed.bind fun played => ⟨trivial, fun _ => ?_⟩
    cases played.1 with
    | panicked p => trivial
    | failed e => exact ⟨trivial, fun _ => hstopped⟩
    | payload v | nothing =>
      refine ⟨trivial, fun sent => ?_⟩
      cases sent with
      | false => exact hstopped
      | true =>
        refine ⟨trivial, fun now => ⟨trivial, fun rested => ?_⟩⟩
        cases rested with
        | false => exact hstopped
        | true => exact ⟨trivial, fun reply => reply.elim⟩

theorem modest_work (hx : x.registry.Common) (work : Work) :
    (x.work work).Modest := by
  cases work with
  | thread name args context => exact (common_thread hx name args context).modest
  | guard job caller done =>
    refine ⟨trivial, fun cancelled => ?_⟩
    cases cancelled with
    | true => exact ⟨trivial, fun _ => trivial⟩
    | false => trivial
  | rounds subscription name source => exact modest_runRounds subscription name source
  | forward subscription outlet =>
    refine ⟨trivial, fun more => ?_⟩
    cases more with
    | true => exact ⟨trivial, fun reply => reply.elim⟩
    | false => trivial

end Exchange

end Switchboard
