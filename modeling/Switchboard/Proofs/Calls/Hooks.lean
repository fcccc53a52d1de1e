import Switchboard.Proofs.Calls.Registration
import Switchboard.Proofs.Calls.Traces

namespace Switchboard

open Routine

namespace Registry

theorem handlers_addHook (r : Registry) (event other : String) (hook : Hook) :
    (r.addHook event hook).handlers other =
      if other = event then r.handlers event ++ [hook] else r.handlers other := by
  show (Directory.get? (r.hooks.insert event (r.handlers event ++ [hook])) other).getD [] = _
  rw [Directory.get?_insert]
  split <;> rfl

def addHooks (r : Registry) (added : List (String × Hook)) : Registry :=
  added.foldl (fun r h => r.addHook h.1 h.2) r

theorem handlers_addHooks (r : Registry) (added : List (String × Hook)) (event : String) :
    (r.addHooks added).handlers event =
      r.handlers event ++ (added.filter fun h => h.1 = event).map Prod.snd := by
  unfold addHooks
  induction added generalizing r with
  | nil => exact (List.append_nil _).symm
  | cons h rest ih =>
    rw [List.foldl_cons, ih, handlers_addHook, List.filter_cons]
    by_cases heq : h.1 = event
    · simp [heq]
    · simp [heq, Ne.symm heq]

end Registry

/-- A handler that was called and waited for, with what it did and how it ended. -/
structure Visit where
  hook : Hook
  trace : Trace
  outcome : Outcome

def Outcome.isFailure : Outcome → Bool
  | .returned _ => false
  | .failed _ | .panicked _ => true

def hookRecord (event : String) (hook : Hook) (outcome : Outcome) : Trace :=
  match Exchange.hookFailure? outcome with
  | none => []
  | some failure =>
    [⟨.log ⟨.error, s!"Hook {hook.name} for {event} failed: {failure}"⟩, ()⟩]

namespace Visit

/-- The handler can run so. Its panic while it is waited for is a way to end. -/
def Happens (payload : Json) (v : Visit) : Prop :=
  ∃ tr₁ tr₂ e, v.trace = tr₁ ++ tr₂ ∧ (v.hook.run payload).prepare.Runs tr₁ (.ok ()) ∧
    (v.hook.run payload).run.Runs tr₂ e ∧ v.outcome = .ofAttempt e

def failed (v : Visit) : Bool := v.outcome.isFailure

def told (event : String) (v : Visit) : Trace := v.trace ++ hookRecord event v.hook v.outcome

end Visit

namespace Exchange

variable {event : String} {payload : Json} {hook : Hook} {hooks : List Hook} {report : FireReport}
  {tr : Trace}

/-- What is done about a handler that has ended before the next one is called. -/
theorem runs_afterHook {outcome : Outcome} {e : Except PanicPayload FireReport} :
    (match hookFailure? outcome with
      | none => runHooks event payload hooks { report with ran := report.ran + 1 }
      | some failure => do
        Routine.log .error s!"Hook {hook.name} for {event} failed: {failure}"
        runHooks event payload hooks ⟨report.ran + 1, report.failed + 1⟩).Runs tr e ↔
      ∃ rest, tr = hookRecord event hook outcome ++ rest ∧
        (runHooks event payload hooks
          ⟨report.ran + 1, report.failed + outcome.isFailure.toNat⟩).Runs rest e := by
  cases outcome with
  | returned value =>
    constructor
    · intro h
      exact ⟨tr, rfl, h⟩
    · rintro ⟨rest, rfl, h⟩
      exact h
  | failed error => exact runs_log_bind
  | panicked p => exact runs_log_bind

/-- The first of the handlers is called. Either this panics, which is the end, or the handler is
waited for and the others have their turn, however it has ended. -/
theorem runs_runHooks_cons {e : Except PanicPayload FireReport} :
    (runHooks event payload (hook :: hooks) report).Runs tr e ↔
      (∃ p, (hook.run payload).prepare.Runs tr (.error p) ∧ e = .error p) ∨
      ∃ (v : Visit) (rest : Trace), v.hook = hook ∧ v.Happens payload ∧
        tr = v.told event ++ rest ∧
        (runHooks event payload hooks ⟨report.ran + 1, report.failed + v.failed.toNat⟩).Runs
          rest e := by
  rw [runHooks]
  refine runs_bind.trans (or_congr Iff.rfl ?_)
  constructor
  · rintro ⟨⟨⟩, tr₁, tr₂, rfl, hprepare, hwait⟩
    rcases runs_bind.mp hwait with ⟨p, hrun, -⟩ | ⟨ended, tr₃, tr₄, rfl, hrun, hafter⟩
    · obtain ⟨e', -, he⟩ := runs_attempt.mp hrun
      cases he
    · obtain ⟨e', hrun, he⟩ := runs_attempt.mp hrun
      cases he
      obtain ⟨rest, rfl, hrest⟩ := runs_afterHook.mp hafter
      refine ⟨⟨hook, tr₁ ++ tr₃, .ofAttempt ended⟩, rest, rfl,
        ⟨tr₁, tr₃, ended, rfl, hprepare, hrun, rfl⟩, ?_, hrest⟩
      simp [Visit.told]
  · rintro ⟨⟨_, _, _⟩, rest, rfl, ⟨tr₁, tr₂, ended, rfl, hprepare, hrun, rfl⟩, rfl, hrest⟩
    refine ⟨(), tr₁, _, by simp [Visit.told], hprepare, runs_bind.mpr (.inr ⟨ended, tr₂, _, rfl,
      runs_attempt.mpr ⟨ended, hrun, rfl⟩, runs_afterHook.mpr ⟨rest, rfl, hrest⟩⟩)⟩

end Exchange

def FireReport.ofVisits (visits : List Visit) : FireReport :=
  ⟨visits.length, visits.countP Visit.failed⟩

def firedRecord (event : String) (report : FireReport) : Sigma Action.Reply :=
  ⟨.log ⟨.debug,
    s!"Fired {event}: FireReport \x7b ran: {report.ran}, failed: {report.failed} \x7d"⟩, ()⟩

/-- The first handlers were visited, each of them once and one after another. Of the handlers those
in `left` were not, and `rest` is what was done after the visits. -/
structure Visited (event : String) (payload : Json) (visits : List Visit)
    (handlers left : List Hook) (tr rest : Trace) : Prop where
  handlers_eq : handlers = visits.map Visit.hook ++ left
  happen : ∀ v ∈ visits, v.Happens payload
  trace_eq : tr = visits.flatMap (Visit.told event) ++ rest

namespace Visited

variable {event : String} {payload : Json} {v : Visit} {visits : List Visit} {hook : Hook}
  {handlers left : List Hook} {tr rest : Trace}

theorem nil : Visited event payload [] handlers handlers tr tr :=
  ⟨rfl, fun _ hv => absurd hv List.not_mem_nil, rfl⟩

theorem cons (hv : v.Happens payload) (h : Visited event payload visits handlers left tr rest) :
    Visited event payload (v :: visits) (v.hook :: handlers) left (v.told event ++ tr) rest where
  handlers_eq := by rw [h.handlers_eq, List.map_cons, List.cons_append]
  happen := List.forall_mem_cons.mpr ⟨hv, h.happen⟩
  trace_eq := by rw [h.trace_eq, List.flatMap_cons, List.append_assoc]

theorem of_cons
    (h : Visited event payload (v :: visits) (hook :: handlers) left tr rest) :
    v.hook = hook ∧ v.Happens payload ∧ ∃ tr', tr = v.told event ++ tr' ∧
      Visited event payload visits handlers left tr' rest := by
  obtain ⟨hhandlers, hhappen, htr⟩ := h
  rw [List.map_cons, List.cons_append] at hhandlers
  rw [List.flatMap_cons, List.append_assoc] at htr
  obtain ⟨hhook, hrest⟩ := List.cons.inj hhandlers
  obtain ⟨hv, hvisits⟩ := List.forall_mem_cons.mp hhappen
  exact ⟨hhook.symm, hv, _, htr, hrest, hvisits, rfl⟩

theorem ran_ofVisits (h : Visited event payload visits handlers [] tr rest) :
    (FireReport.ofVisits visits).ran = handlers.length := by
  rw [h.handlers_eq, List.append_nil, List.length_map]
  rfl

end Visited

/-- How it ends where the handlers in `left` have not been visited: nobody is left, or the call that
begins the next handler panics. -/
inductive VisitsEnd (payload : Json) (report : FireReport) :
    List Hook → Trace → Except PanicPayload FireReport → Prop where
  | reported : VisitsEnd payload report [] [] (.ok report)
  | called {hook : Hook} {left : List Hook} {tr : Trace} {p : PanicPayload}
      (h : (hook.run payload).prepare.Runs tr (.error p)) :
      VisitsEnd payload report (hook :: left) tr (.error p)

namespace Exchange

variable {event : String} {payload : Json} {hooks : List Hook} {report : FireReport} {tr : Trace}

theorem add_ofVisits_cons (v : Visit) (visits : List Visit) :
    (⟨report.ran + 1 + visits.length,
      report.failed + v.failed.toNat + visits.countP Visit.failed⟩ : FireReport) =
    ⟨report.ran + (v :: visits).length, report.failed + (v :: visits).countP Visit.failed⟩ := by
  rw [List.length_cons, List.countP_cons]
  cases v.failed <;> simp <;> omega

theorem runs_runHooks {e : Except PanicPayload FireReport} :
    (runHooks event payload hooks report).Runs tr e ↔ ∃ visits left rest,
      Visited event payload visits hooks left tr rest ∧
      VisitsEnd payload
        ⟨report.ran + visits.length, report.failed + visits.countP Visit.failed⟩ left rest e := by
  induction hooks generalizing report tr with
  | nil =>
    constructor
    · rintro ⟨rfl, rfl⟩
      exact ⟨[], [], [], .nil, .reported⟩
    · rintro ⟨visits, left, rest, ⟨hhandlers, -, rfl⟩, hends⟩
      obtain ⟨hvisits, rfl⟩ := List.append_eq_nil_iff.mp hhandlers.symm
      cases List.map_eq_nil_iff.mp hvisits
      cases hends
      exact ⟨rfl, rfl⟩
  | cons hook hooks ih =>
    rw [runs_runHooks_cons]
    constructor
    · rintro (⟨p, hcalled, rfl⟩ | ⟨v, tr', rfl, hv, rfl, hrest⟩)
      · exact ⟨[], _, _, .nil, .called hcalled⟩
      · obtain ⟨visits, left, rest, hvisited, hends⟩ := ih.mp hrest
        rw [add_ofVisits_cons] at hends
        exact ⟨v :: visits, left, rest, hvisited.cons hv, hends⟩
    · rintro ⟨visits, left, rest, hvisited, hends⟩
      cases visits with
      | nil =>
        obtain ⟨rfl, -, rfl⟩ := hvisited
        cases hends with
        | called hcalled => exact .inl ⟨_, hcalled, rfl⟩
      | cons v visits =>
        obtain ⟨hhook, hv, tr', rfl, hrest⟩ := hvisited.of_cons
        rw [← add_ofVisits_cons] at hends
        exact .inr ⟨v, tr', hhook, hv, rfl, ih.mpr ⟨visits, left, rest, hrest, hends⟩⟩

end Exchange

/-- What firing an event does to its handlers. -/
structure HooksIsolated (x : Exchange) (event : String) (payload : Json) : Prop where
  /-- Either all handlers are visited, whatever becomes of each of them, and the report counts them,
  or the call that begins one of them panics after visits to those before it. The panic is passed
  on then, and the handlers behind are not called. -/
  fires : ∀ tr e, (x.fire event payload).Runs tr e ↔
    (∃ visits, Visited event payload visits (x.registry.handlers event) [] tr
        [firedRecord event (.ofVisits visits)] ∧ e = .ok (.ofVisits visits)) ∨
    ∃ visits hook left rest p,
      Visited event payload visits (x.registry.handlers event) (hook :: left) tr rest ∧
      (hook.run payload).prepare.Runs rest (.error p) ∧ e = .error p
  reports : (∀ hook ∈ x.registry.handlers event, ∀ tr p,
      ¬ (hook.run payload).prepare.Runs tr (.error p)) →
    ∀ tr e, (x.fire event payload).Runs tr e → ∃ visits : List Visit,
      visits.map Visit.hook = x.registry.handlers event ∧ (∀ v ∈ visits, v.Happens payload) ∧
      e = .ok ⟨(x.registry.handlers event).length, visits.countP Visit.failed⟩
  registered : ∀ (r : Registry) (added : List (String × Hook)), x.registry = r.addHooks added →
    x.registry.handlers event =
      r.handlers event ++ (added.filter fun h => h.1 = event).map Prod.snd

namespace Exchange

variable {event : String} {payload : Json} {tr : Trace}

theorem runs_fire {x : Exchange} {e : Except PanicPayload FireReport} :
    (x.fire event payload).Runs tr e ↔
      (∃ visits, Visited event payload visits (x.registry.handlers event) [] tr
        [firedRecord event (.ofVisits visits)] ∧ e = .ok (.ofVisits visits)) ∨
      ∃ visits hook left rest p,
        Visited event payload visits (x.registry.handlers event) (hook :: left) tr rest ∧
        (hook.run payload).prepare.Runs rest (.error p) ∧ e = .error p := by
  have hreport : ∀ visits : List Visit, (⟨({} : FireReport).ran + visits.length,
      ({} : FireReport).failed + visits.countP Visit.failed⟩ : FireReport) = .ofVisits visits := by
    intro visits
    simp [FireReport.ofVisits]
  unfold fire
  rw [runs_bind]
  constructor
  · rintro (⟨p, hhooks, rfl⟩ | ⟨report, tr₁, tr₂, rfl, hhooks, hlog⟩)
    · obtain ⟨visits, left, rest, hvisited, hends⟩ := runs_runHooks.mp hhooks
      cases hends with
      | called hcalled => exact .inr ⟨visits, _, _, rest, p, hvisited, hcalled, rfl⟩
    · obtain ⟨visits, left, rest, hvisited, hends⟩ := runs_runHooks.mp hhooks
      rw [hreport] at hends
      cases hends
      obtain ⟨tr₃, rfl, rfl, rfl⟩ := runs_log_bind.mp hlog
      refine .inl ⟨visits, ⟨hvisited.handlers_eq, hvisited.happen, ?_⟩, rfl⟩
      rw [hvisited.trace_eq, List.append_nil]
      rfl
  · rintro (⟨visits, hvisited, rfl⟩ | ⟨visits, hook, left, rest, p, hvisited, hcalled, rfl⟩)
    · refine .inr ⟨.ofVisits visits, visits.flatMap (Visit.told event), _, hvisited.trace_eq, ?_,
        runs_log_bind.mpr ⟨[], rfl, rfl, rfl⟩⟩
      refine runs_runHooks.mpr ⟨visits, [], [], ⟨hvisited.handlers_eq, hvisited.happen,
        (List.append_nil _).symm⟩, ?_⟩
      rw [hreport]
      exact .reported
    · exact .inl ⟨p, runs_runHooks.mpr ⟨visits, _, rest, hvisited, .called hcalled⟩, rfl⟩

end Exchange

theorem hooks_isolated_unless_called (x : Exchange) (event : String) (payload : Json) :
    HooksIsolated x event payload where
  fires _ _ := Exchange.runs_fire
  reports hcalled tr e hruns := by
    rcases Exchange.runs_fire.mp hruns with
      ⟨visits, hvisited, rfl⟩ | ⟨visits, hook, left, rest, p, hvisited, hpanics, -⟩
    · refine ⟨visits, ?_, hvisited.happen, ?_⟩
      · rw [hvisited.handlers_eq, List.append_nil]
      · rw [← hvisited.ran_ofVisits]
        rfl
    · refine absurd hpanics (hcalled hook ?_ rest p)
      rw [hvisited.handlers_eq]
      exact List.mem_append_right _ List.mem_cons_self
  registered r added hr := by
    rw [hr]
    exact r.handlers_addHooks added event

def idleHook (name : String) (prepare : Routine Unit) : Hook where
  name
  run _ := { prepare, run := pure (.returned .null) }

def explosive : Exchange where
  registry := Registry.addHooks {}
    [("e", idleHook "explode" (Routine.panic (.text "boom"))), ("e", idleHook "after" (pure ()))]

/-- The panic is passed on to whoever has fired the event. There is no other run, so no report and
no visit to the second handler. -/
theorem panic_of_call_ends_firing :
    (explosive.registry.handlers "e").map Hook.name = ["explode", "after"] ∧
      (explosive.fire "e" .null).Runs [] (.error (.text "boom")) ∧
      ∀ tr report, ¬ (explosive.fire "e" .null).Runs tr (.ok report) := by
  have hhandlers : explosive.registry.handlers "e" =
      [idleHook "explode" (Routine.panic (.text "boom")), idleHook "after" (pure ())] :=
    Registry.handlers_addHooks _ _ _
  rw [Exchange.fire, hhandlers]
  refine ⟨rfl, .inl ⟨_, rfl, rfl, rfl⟩, fun tr report hruns => ?_⟩
  rcases hruns with ⟨p, -, -, he⟩ | ⟨reply, -⟩
  · cases he
  · cases reply

end Switchboard
