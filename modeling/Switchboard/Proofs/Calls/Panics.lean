import Switchboard.Proofs.Calls.Traces

namespace Switchboard

open Routine

/-- When a handler panics: as it is called, while it is waited for, or on a thread. -/
inductive PanicPoint where
  | called
  | polled
  | onThread (task : Nat)
deriving DecidableEq

inductive HandlerEnd where
  | panicked (point : PanicPoint) (p : PanicPayload)
  | ended (result : Except CallError Json)

def attributed (method : String) : Except CallError Json → Except CallError Json
  | .error (.failed text) => .error (.call method text)
  | result => result

namespace HandlerEnd

def ofOutcome (point : PanicPoint) : Outcome → HandlerEnd
  | .returned v => ended (.ok v)
  | .failed e => ended (.error e)
  | .panicked p => panicked point p

def result : HandlerEnd → Except PanicPayload (Except CallError Json)
  | panicked .called p => .error p
  | panicked .polled p => .ok (.error (.failed (Outcome.panicText p)))
  | panicked (.onThread task) p => .ok (.error (.failed (Outcome.taskPanicText task p)))
  | ended result => .ok result

def answer (method : String) : HandlerEnd → Except PanicPayload (Except CallError Json)
  | panicked .called p => .error p
  | panicked .polled p => .ok (.error (.call method (Outcome.panicText p)))
  | panicked (.onThread task) p => .ok (.error (.call method (Outcome.taskPanicText task p)))
  | ended result => .ok (attributed method result)

end HandlerEnd

inductive HandlerEnds (m : Method) (context : CallContext) (args : List Json) :
    Trace → HandlerEnd → Prop where
  | called {tr : Trace} {p : PanicPayload} (hm : m.blocking = false)
      (h : (m.body context args).prepare.Runs tr (.error p)) :
      HandlerEnds m context args tr (.panicked .called p)
  | polled {tr₁ tr₂ : Trace} {e : Except PanicPayload Outcome} (hm : m.blocking = false)
      (hprepare : (m.body context args).prepare.Runs tr₁ (.ok ()))
      (hrun : (m.body context args).run.Runs tr₂ e) :
      HandlerEnds m context args (tr₁ ++ tr₂) (.ofOutcome .polled (.ofAttempt e))
  | onThread {task : Nat} {outcome : Outcome} (hm : m.blocking = true) :
      HandlerEnds m context args
        [⟨.spawn (.thread m.name args context), task⟩, ⟨.join task, outcome⟩]
        (.ofOutcome (.onThread task) outcome)

/-- A handler that does nothing as it is called ends as it does while it is waited for. -/
theorem handlerEnds_iff {m : Method} {context : CallContext} {args : List Json} {tr : Trace}
    {h : HandlerEnd} (hm : m.blocking = false)
    (hprepare : (m.body context args).prepare = pure ()) :
    HandlerEnds m context args tr h ↔ ∃ e, (m.body context args).run.Runs tr e ∧
      h = .ofOutcome .polled (.ofAttempt e) := by
  constructor
  · intro hends
    cases hends with
    | called _ hcalled =>
      rw [hprepare] at hcalled
      cases (runs_pure.mp hcalled).2
    | @polled tr₁ tr₂ e _ hcalled hrun =>
      rw [hprepare] at hcalled
      obtain ⟨rfl, -⟩ := runs_pure.mp hcalled
      exact ⟨e, hrun, rfl⟩
    | onThread hm' => cases hm.symm.trans hm'
  · rintro ⟨e, hrun, rfl⟩
    have hcalled : (m.body context args).prepare.Runs [] (.ok ()) :=
      hprepare ▸ runs_pure.mpr ⟨rfl, rfl⟩
    exact .polled hm hcalled hrun

namespace Exchange

variable {m : Method} {context : CallContext} {args raw : List Json} {tr : Trace}

theorem result_ofOutcome_polled (o : Outcome) :
    (HandlerEnd.ofOutcome .polled o).result = .ok o.caught := by
  cases o <;> rfl

theorem result_ofOutcome_onThread (task : Nat) (o : Outcome) :
    (HandlerEnd.ofOutcome (.onThread task) o).result = .ok (o.joined task) := by
  cases o <;> rfl

theorem runs_execute {e : Except PanicPayload (Except CallError Json)} :
    (execute m args context).Runs tr e ↔
      ∃ h, HandlerEnds m context args tr h ∧ e = h.result := by
  unfold execute
  cases hm : m.blocking with
  | true =>
    rw [if_pos rfl]
    constructor
    · intro h
      obtain ⟨task, tr₁, rfl, hjoin⟩ := (runs_ask_bind (by simp)).mp h
      obtain ⟨outcome, tr₂, rfl, hdone⟩ := (runs_ask_bind (by simp)).mp hjoin
      obtain ⟨rfl, rfl⟩ := runs_pure.mp hdone
      exact ⟨_, .onThread hm, (result_ofOutcome_onThread task outcome).symm⟩
    · rintro ⟨h, hends, rfl⟩
      cases hends with
      | called hm' => simp [hm] at hm'
      | polled hm' => simp [hm] at hm'
      | @onThread task outcome =>
        refine (runs_ask_bind (by simp)).mpr ⟨task, _, rfl, ?_⟩
        refine (runs_ask_bind (by simp)).mpr ⟨outcome, _, rfl, ?_⟩
        exact runs_pure.mpr ⟨rfl, result_ofOutcome_onThread task outcome⟩
  | false =>
    rw [if_neg (by simp), runs_bind]
    constructor
    · rintro (⟨p, hprepare, rfl⟩ | ⟨⟨⟩, tr₁, tr₂, rfl, hprepare, hrest⟩)
      · exact ⟨_, .called hm hprepare, rfl⟩
      · rcases runs_bind.mp hrest with ⟨p, hrun, -⟩ | ⟨a, tr₃, tr₄, rfl, hrun, hdone⟩
        · obtain ⟨e', -, he⟩ := runs_attempt.mp hrun
          cases he
        · obtain ⟨e', hrun, he⟩ := runs_attempt.mp hrun
          cases he
          obtain ⟨rfl, rfl⟩ := runs_pure.mp hdone
          rw [List.append_nil]
          exact ⟨_, .polled hm hprepare hrun, (result_ofOutcome_polled _).symm⟩
    · rintro ⟨h, hends, rfl⟩
      cases hends with
      | called _ hprepare => exact .inl ⟨_, hprepare, rfl⟩
      | @polled tr₁ tr₂ e' _ hprepare hrun =>
        refine .inr ⟨(), tr₁, tr₂, rfl, hprepare, runs_bind.mpr (.inr ⟨e', tr₂, [], by simp,
          runs_attempt.mpr ⟨e', hrun, rfl⟩, ?_⟩)⟩
        exact runs_pure.mpr ⟨rfl, result_ofOutcome_polled _⟩
      | onThread hm' => simp [hm] at hm'

def failureTrace (method : String) (raw : List Json) : Except CallError Json → Trace
  | .ok _ => []
  | .error (.failed text) => [⟨.log
      ⟨.error, s!"Method {method} failed: {text}; arguments: {summary raw}"⟩, ()⟩]
  | .error e => [⟨.log ⟨.debug, s!"Method {method} returned {e.message}"⟩, ()⟩]

theorem runs_attribute {method : String} {r : Except CallError Json}
    {e : Except PanicPayload (Except CallError Json)} :
    (attribute? method raw r).Runs tr e ↔
      tr = failureTrace method raw r ∧ e = .ok (attributed method r) := by
  have hlogged : ∀ {level text result}, (do
      Routine.log level text
      return result : Routine (Except CallError Json)).Runs tr e ↔
      tr = [⟨.log ⟨level, text⟩, ()⟩] ∧ e = .ok result := by
    intro level text result
    rw [runs_log_bind]
    constructor
    · rintro ⟨rest, rfl, rfl, he⟩
      exact ⟨rfl, he⟩
    · rintro ⟨rfl, he⟩
      exact ⟨[], rfl, rfl, he⟩
  cases r with
  | ok v => exact runs_pure
  | error error => cases error <;> exact hlogged

end Exchange

namespace HandlerEnd

def epilogue (method : String) (raw : List Json) (h : HandlerEnd) : Trace :=
  match h.result with
  | .ok result => Exchange.failureTrace method raw result
  | .error _ => []

theorem answer_eq (method : String) (h : HandlerEnd) :
    h.answer method = h.result.map (attributed method) := by
  cases h with
  | panicked point p => cases point <;> rfl
  | ended result => rfl

theorem answer_panicked {point : PanicPoint} (method : String) (p : PanicPayload)
    (hpoint : point ≠ .called) :
    ∃ text, (panicked point p).answer method = .ok (.error (.call method text)) := by
  cases point with
  | called => exact absurd rfl hpoint
  | polled => exact ⟨_, rfl⟩
  | onThread task => exact ⟨_, rfl⟩

theorem answer_eq_error_iff {method : String} {h : HandlerEnd} {p : PanicPayload} :
    h.answer method = .error p ↔ h = panicked .called p := by
  cases h with
  | panicked point p' => cases point <;> simp [answer]
  | ended result => simp [answer]

end HandlerEnd

namespace Exchange

variable {x : Exchange} {m : Method} {context : CallContext} {args cleaned raw : List Json}
  {tr : Trace}

theorem runs_execute_attribute {method : String}
    {e : Except PanicPayload (Except CallError Json)} :
    (execute m args context >>= attribute? method raw).Runs tr e ↔
      ∃ trh h, HandlerEnds m context args trh h ∧ tr = trh ++ h.epilogue method raw ∧
        e = h.answer method := by
  rw [runs_bind]
  constructor
  · rintro (⟨p, hexec, rfl⟩ | ⟨r, tr₁, tr₂, rfl, hexec, hattr⟩)
    · obtain ⟨h, hends, hr⟩ := runs_execute.mp hexec
      refine ⟨tr, h, hends, ?_, ?_⟩
      · simp [HandlerEnd.epilogue, ← hr]
      · rw [h.answer_eq, ← hr]
        rfl
    · obtain ⟨h, hends, hr⟩ := runs_execute.mp hexec
      obtain ⟨rfl, rfl⟩ := runs_attribute.mp hattr
      refine ⟨tr₁, h, hends, ?_, ?_⟩
      · simp [HandlerEnd.epilogue, ← hr]
      · rw [h.answer_eq, ← hr]
        rfl
  · rintro ⟨trh, h, hends, rfl, rfl⟩
    have hexec := runs_execute.mpr ⟨h, hends, rfl⟩
    rw [h.answer_eq, HandlerEnd.epilogue]
    cases hr : h.result with
    | error p =>
      rw [hr] at hexec
      exact .inl ⟨p, by simpa using hexec, rfl⟩
    | ok r =>
      rw [hr] at hexec
      exact .inr ⟨r, trh, _, rfl, hexec, runs_attribute.mpr ⟨rfl, rfl⟩⟩

theorem runs_invoke {e : Except PanicPayload (Except CallError Json)}
    (hclean : Accepts.clean m.accepts args = .ok cleaned) :
    (invoke m args context).Runs tr e ↔ ∃ trh h, HandlerEnds m context cleaned trh h ∧
      tr = ⟨.log ⟨.debug, s!"Calling {m.name}"⟩, ()⟩ :: (trh ++ h.epilogue m.name args) ∧
      e = h.answer m.name := by
  unfold invoke
  rw [hclean]
  refine runs_log_bind.trans ?_
  constructor
  · rintro ⟨rest, rfl, hrest⟩
    obtain ⟨trh, h, hends, rfl, he⟩ := runs_execute_attribute.mp hrest
    exact ⟨trh, h, hends, rfl, he⟩
  · rintro ⟨trh, h, hends, rfl, he⟩
    exact ⟨_, rfl, runs_execute_attribute.mpr ⟨trh, h, hends, rfl, he⟩⟩

/-- What comes before the handler in a call, and what after it. -/
def callTrace (m : Method) (args : List Json) (caller : Option Token) (token : Token)
    (trh : Trace) (h : HandlerEnd) : Trace :=
  ⟨.newToken caller, token⟩ :: ⟨.log ⟨.debug, s!"Calling {m.name}"⟩, ()⟩ ::
    (trh ++ h.epilogue m.name args)

theorem runs_newToken_invoke {caller : Option Token}
    {e : Except PanicPayload (Except CallError Json)}
    (hclean : Accepts.clean m.accepts args = .ok cleaned) :
    (Routine.ask (.newToken caller) >>= fun token : Token => invoke m args { token }).Runs tr e ↔
      ∃ token trh h, HandlerEnds m { token } cleaned trh h ∧
        tr = callTrace m args caller token trh h ∧ e = h.answer m.name := by
  refine (runs_ask_bind (by simp)).trans ?_
  constructor
  · rintro ⟨token, rest, rfl, hrest⟩
    obtain ⟨trh, h, hends, rfl, he⟩ := (runs_invoke hclean).mp hrest
    exact ⟨token, trh, h, hends, rfl, he⟩
  · rintro ⟨token, trh, h, hends, rfl, he⟩
    exact ⟨token, _, rfl, (runs_invoke hclean).mpr ⟨trh, h, hends, rfl, he⟩⟩

theorem runs_call {e : Except PanicPayload (Except CallError Json)}
    (hm : x.registry.method? m.name = some m) (hjob : m.job = none)
    (hclean : Accepts.clean m.accepts args = .ok cleaned) :
    (x.call m.name args).Runs tr e ↔ ∃ token trh h, HandlerEnds m { token } cleaned trh h ∧
      tr = callTrace m args none token trh h ∧ e = h.answer m.name := by
  simp only [call, hm, hjob]
  exact runs_newToken_invoke hclean

theorem runs_callWait {e : Except PanicPayload (Except CallError Json)} {caller : Option Token}
    (hm : x.registry.method? m.name = some m) (hjob : m.job = none)
    (hclean : Accepts.clean m.accepts args = .ok cleaned) :
    (x.callWait m.name args caller).Runs tr e ↔
      ∃ token trh h, HandlerEnds m { token } cleaned trh h ∧
        tr = callTrace m args caller token trh h ∧ e = h.answer m.name := by
  simp only [callWait, hm, hjob]
  exact runs_newToken_invoke hclean

/-- The task of a job that calls a method reports what the caller of the method would be told, once
and at last. It reports nothing if the handler panics as it is called. -/
theorem runs_runJob {id : Nat} {e : Except PanicPayload Outcome}
    (hm : x.registry.method? m.name = some m) :
    (x.runJob id (.method m.name cleaned raw)).Runs tr e ↔
      ∃ trh h, HandlerEnds m ⟨.job id, some id⟩ cleaned trh h ∧
        match h.answer m.name with
        | .error p => tr = trh ∧ e = .error p
        | .ok result =>
          tr = trh ++ h.epilogue m.name raw ++ [⟨.report (.finished id result), ()⟩] ∧
            e = .ok (.returned .null) := by
  have hbody : x.jobOutcome id (.method m.name cleaned raw) =
      execute m cleaned ⟨.job id, some id⟩ >>= attribute? m.name raw := by
    simp only [jobOutcome, hm]
  unfold runJob
  rw [hbody]
  refine runs_bind.trans ?_
  constructor
  · rintro (⟨p, hrun, rfl⟩ | ⟨result, tr₁, tr₂, rfl, hrun, hreport⟩)
    · obtain ⟨trh, h, hends, rfl, hanswer⟩ := runs_execute_attribute.mp hrun
      cases HandlerEnd.answer_eq_error_iff.mp hanswer.symm
      exact ⟨trh, _, hends, by simp [HandlerEnd.epilogue, HandlerEnd.result], rfl⟩
    · obtain ⟨trh, h, hends, rfl, hanswer⟩ := runs_execute_attribute.mp hrun
      obtain ⟨⟨⟩, rest, rfl, hdone⟩ := (runs_ask_bind (by simp)).mp hreport
      obtain ⟨rfl, rfl⟩ := runs_pure.mp hdone
      refine ⟨trh, h, hends, ?_⟩
      rw [← hanswer]
      exact ⟨rfl, rfl⟩
  · rintro ⟨trh, h, hends, htr⟩
    have hrun : (execute m cleaned ⟨.job id, some id⟩ >>= attribute? m.name raw).Runs
        (trh ++ h.epilogue m.name raw) (h.answer m.name) :=
      runs_execute_attribute.mpr ⟨trh, h, hends, rfl, rfl⟩
    cases hanswer : h.answer m.name with
    | error p =>
      rw [hanswer] at htr hrun
      obtain ⟨rfl, rfl⟩ := htr
      cases HandlerEnd.answer_eq_error_iff.mp hanswer
      exact .inl ⟨p, by simpa [HandlerEnd.epilogue, HandlerEnd.result] using hrun, rfl⟩
    | ok result =>
      rw [hanswer] at htr hrun
      obtain ⟨rfl, rfl⟩ := htr
      refine .inr ⟨result, _, _, rfl, hrun, (runs_ask_bind (by simp)).mpr ⟨(), [], rfl, ?_⟩⟩
      exact runs_pure.mpr ⟨rfl, rfl⟩

end Exchange

end Switchboard
