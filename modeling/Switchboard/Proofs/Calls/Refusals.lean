import Switchboard.Proofs.Calls.Registration
import Switchboard.Proofs.Calls.Traces

namespace Switchboard

/-- The registries that come about by registration. -/
inductive Registry.Made : Registry → Prop where
  | empty : Made {}
  | method {r r' : Registry} {m : Method} (h : Made r) (hadded : r.addMethod m = .ok r') : Made r'
  | source {r r' : Registry} {name : String} {entry : SourceEntry} (h : Made r)
      (hadded : r.addEventSource name entry = .ok r') : Made r'
  | hook {r : Registry} (h : Made r) (event : String) (hook : Hook) : Made (r.addHook event hook)

theorem Registry.Made.name_of {r : Registry} (h : r.Made) {name : String} {m : Method}
    (hm : r.method? name = some m) : m.name = name := by
  induction h with
  | empty => cases hm
  | method _ hadded ih =>
    obtain ⟨-, rfl⟩ := of_addMethod hadded
    rcases Directory.get?_of_insert hm with ⟨rfl, rfl⟩ | hold
    · rfl
    · exact ih hold
  | source _ hadded ih =>
    cases of_addEventSource hadded
    exact ih hm
  | hook _ _ _ ih => exact ih hm

namespace Routine

/-- All that comes of the routine is a value, and at most a token is made before. -/
inductive OnlyTells {α : Type} (a : α) : Routine α → Prop where
  | atOnce : OnlyTells a (.done a)
  | numbered (parent : Option Token) : OnlyTells a (.act (.newToken parent) fun _ => .done a)

theorem OnlyTells.attempt {α : Type} {a : α} {r : Routine α} (h : r.OnlyTells a) :
    r.attempt.OnlyTells (.ok a) := by
  cases h with
  | atOnce => exact .atOnce
  | numbered parent => exact .numbered parent

end Routine

/-- How a method is called: so that a job is only submitted, as a job, or for its result, be it for
a caller or not. -/
inductive Entrance where
  | call
  | callJob
  | callWait (caller : Option Token)

def Entrance.caller? : Entrance → Option Token
  | .callWait caller => caller
  | .call | .callJob => none

def Method.front (m : Method) : Accepts × Bool := (m.accepts, m.job.isSome)

namespace Exchange

def enter (x : Exchange) (name : String) (args : List Json) :
    Entrance → Routine (Except CallError Json)
  | .call => x.call name args
  | .callJob => x.callJob name args
  | .callWait caller => x.callWait name args caller

variable {x y : Exchange} {name : String} {args : List Json} {entrance : Entrance} {e : CallError}

/-- Why a call is turned away. -/
inductive Refusal (x : Exchange) (name : String) (args : List Json) (entrance : Entrance) :
    CallError → Prop where
  | unknown (hm : x.registry.method? name = none) :
      Refusal x name args entrance (.methodNotFound name)
  | notJob {m : Method} (hm : x.registry.method? name = some m) (hjob : m.job = none)
      (hentrance : entrance = .callJob) :
      Refusal x name args entrance (.failed s!"Method {name} is not a job")
  | rejected {m : Method} {errors : FieldErrors} (hm : x.registry.method? name = some m)
      (hjob : entrance = .callJob → m.job.isSome)
      (hclean : Accepts.clean m.accepts args = .error errors) :
      Refusal x name args entrance (.validation errors)

/-- Whoever calls a method that is not known, or one that takes no such arguments, is turned away
at every entrance. -/
theorem refused (h : ∀ m, x.registry.method? name = some m →
    ∃ errors, Accepts.clean m.accepts args = .error errors) (entrance : Entrance) :
    ∃ e, x.Refusal name args entrance e := by
  cases hm : x.registry.method? name with
  | none => exact ⟨_, .unknown hm⟩
  | some m =>
    obtain ⟨errors, hclean⟩ := h m hm
    by_cases hjob : entrance = .callJob ∧ m.job = none
    · exact ⟨_, .notJob hm hjob.2 hjob.1⟩
    · have hsome : entrance = .callJob → m.job.isSome := fun hentrance =>
        Option.isSome_iff_ne_none.mpr fun hnone => hjob ⟨hentrance, hnone⟩
      exact ⟨_, .rejected hm hsome hclean⟩

theorem invoke_of_rejected {m : Method} {errors : FieldErrors}
    (hclean : Accepts.clean m.accepts args = .error errors) (context : CallContext) :
    invoke m args context = .done (.error (.validation errors)) := by
  simp only [invoke, hclean]
  rfl

theorem submit_of_rejected {m : Method} {errors : FieldErrors}
    (hclean : Accepts.clean m.accepts args = .error errors) (o : JobOptions) :
    x.submit m o args = .done (.error (.validation errors)) := by
  simp only [submit, hclean]
  rfl

/-- What is done of a call whose arguments are rejected. -/
theorem enter_of_rejected {m : Method} {errors : FieldErrors}
    (hm : x.registry.method? name = some m) (hclean : Accepts.clean m.accepts args = .error errors)
    (hjob : entrance = .callJob → m.job.isSome) : x.enter name args entrance =
      if m.job.isSome then .done (.error (.validation errors))
      else .act (.newToken entrance.caller?) fun _ => .done (.error (.validation errors)) := by
  cases hopts : m.job with
  | some o =>
    cases entrance <;>
      simp only [enter, call, callJob, callWait, hm, hopts, submit_of_rejected hclean] <;> rfl
  | none =>
    cases entrance with
    | call =>
      simp only [enter, call, hm, hopts, invoke_of_rejected hclean]
      rfl
    | callJob => simp [hopts] at hjob
    | callWait caller =>
      simp only [enter, callWait, hm, hopts, invoke_of_rejected hclean]
      rfl

theorem enter_of_unknown (hm : x.registry.method? name = none) (entrance : Entrance) :
    x.enter name args entrance = .done (.error (.methodNotFound name)) := by
  cases entrance <;> simp only [enter, call, callJob, callWait, hm] <;> rfl

theorem enter_of_notJob {m : Method} (hm : x.registry.method? name = some m)
    (hjob : m.job = none) : x.enter name args .callJob =
      .done (.error (.failed s!"Method {name} is not a job")) := by
  simp only [enter, callJob, hm, hjob]
  rfl

theorem Refusal.onlyTells (h : x.Refusal name args entrance e) :
    (x.enter name args entrance).OnlyTells (.error e) := by
  cases h with
  | unknown hm =>
    rw [enter_of_unknown hm]
    exact .atOnce
  | notJob hm hjob hentrance =>
    rw [hentrance, enter_of_notJob hm hjob]
    exact .atOnce
  | rejected hm hjob hclean =>
    rw [enter_of_rejected hm hclean hjob]
    split
    next => exact .atOnce
    next => exact .numbered _

/-- Whoever is turned away by one method is turned away in the same manner by any other with its
parameters, whatever the handlers, the locks and the descriptions of the two are. -/
theorem Refusal.blind (h : x.Refusal name args entrance e)
    (hfront : (y.registry.method? name).map Method.front =
      (x.registry.method? name).map Method.front) :
    y.Refusal name args entrance e ∧ y.enter name args entrance = x.enter name args entrance := by
  have hother : ∀ m, x.registry.method? name = some m → ∃ m', y.registry.method? name = some m' ∧
      m'.accepts = m.accepts ∧ m'.job.isSome = m.job.isSome := by
    intro m hm
    rw [hm] at hfront
    obtain ⟨m', hm', heq⟩ := Option.map_eq_some_iff.mp hfront
    exact ⟨m', hm', (Prod.mk.inj heq).1, (Prod.mk.inj heq).2⟩
  cases h with
  | unknown hm =>
    rw [hm] at hfront
    have hnone : y.registry.method? name = none := Option.map_eq_none_iff.mp hfront
    exact ⟨.unknown hnone, (enter_of_unknown hnone _).trans (enter_of_unknown hm _).symm⟩
  | notJob hm hjob hentrance =>
    obtain ⟨m', hm', -, hsome⟩ := hother _ hm
    have hjob' : m'.job = none := by
      rw [hjob] at hsome
      exact Option.not_isSome_iff_eq_none.mp (Bool.not_eq_true _ ▸ hsome)
    refine ⟨.notJob hm' hjob' hentrance, ?_⟩
    rw [hentrance, enter_of_notJob hm hjob, enter_of_notJob hm' hjob']
  | rejected hm hjob hclean =>
    obtain ⟨m', hm', haccepts, hsome⟩ := hother _ hm
    have hclean' : Accepts.clean m'.accepts args = .error _ := haccepts ▸ hclean
    have hjob' : entrance = .callJob → m'.job.isSome := hsome ▸ hjob
    refine ⟨.rejected hm' hjob' hclean', ?_⟩
    rw [enter_of_rejected hm' hclean' hjob', enter_of_rejected hm hclean hjob, hsome]

end Exchange

end Switchboard
