import Switchboard.Proofs.Calls.Common
import Switchboard.Proofs.Calls.Trees

namespace Switchboard

namespace Begun

/-- All that has been begun here has been begun there. -/
structure Within (b b' : Begun) : Prop where
  threads : b.threads ⊆ b'.threads
  jobs : b.jobs ⊆ b'.jobs

variable {b b' b'' : Begun} {step : Sigma Action.Reply} {branch : Branch}

theorem Within.refl (b : Begun) : b.Within b := ⟨List.Subset.refl _, List.Subset.refl _⟩

theorem Within.trans (h : b.Within b') (h' : b'.Within b'') : b.Within b'' :=
  ⟨List.Subset.trans h.threads h'.threads, List.Subset.trans h.jobs h'.jobs⟩

theorem within_of_empty (b : Begun) : Within {} b := ⟨List.nil_subset _, List.nil_subset _⟩

def added (step : Sigma Action.Reply) : Begun := Begun.after {} step

theorem after_eq (b : Begun) (step : Sigma Action.Reply) :
    b.after step = ⟨(added step).threads ++ b.threads, (added step).jobs ++ b.jobs⟩ := by
  obtain ⟨action, reply⟩ := step
  cases action with
  | spawn work => cases work <;> rfl
  | ask r =>
    cases r with
    | submit job => cases reply <;> rfl
    | _ => rfl
  | _ => rfl

theorem within_after (b : Begun) (step : Sigma Action.Reply) : b.Within (b.after step) := by
  rw [after_eq]
  exact ⟨List.subset_append_right _ _, List.subset_append_right _ _⟩

theorem Within.after (h : b.Within b') (step : Sigma Action.Reply) :
    (b.after step).Within (b'.after step) := by
  rw [after_eq, after_eq]
  exact ⟨List.append_subset.mpr ⟨List.subset_append_left _ _,
      List.subset_append_of_subset_right _ h.threads⟩,
    List.append_subset.mpr ⟨List.subset_append_left _ _,
      List.subset_append_of_subset_right _ h.jobs⟩⟩

theorem Told.mono (ht : b.Told step branch) (h : b.Within b') : b'.Told step branch := by
  cases ht with
  | call name args caller result => exact .call name args caller result
  | launch name args result => exact .launch name args result
  | thread outcome hmem => exact .thread outcome (h.threads hmem)
  | job ending hmem => exact .job ending (h.jobs hmem)

end Begun

/-- The body of a job has ended so, with everything that it branches into. -/
def Ran (x : Exchange) (b : Begun) (id : Nat) (result : Except CallError Json) : Prop :=
  ∃ body, (id, body) ∈ b.jobs ∧ ∃ tr, (x.jobOutcome id body).Runs tr (.ok result) ∧
    tr.Answered ∧ ∀ branch, Begun.Bears {} tr branch → Happens x branch

theorem Ran.mono {x : Exchange} {b b' : Begun} {id : Nat} {result : Except CallError Json}
    (hr : Ran x b id result) (h : b.jobs ⊆ b'.jobs) : Ran x b' id result := by
  obtain ⟨body, hmem, hruns⟩ := hr
  exact ⟨body, h hmem, hruns⟩

/-- A routine comes to its goal, whatever it is told, as long as it is told of branches that have
happened and somebody keeps the table. The task of a job owes a report of its end; nobody else makes
one. -/
inductive Heeds (x : Exchange) (goal : Outcome → Prop) :
    Begun → Option Nat → Routine Outcome → Prop where
  | done {b : Begun} {owed : Option Nat} {outcome : Outcome} (h : goal outcome) :
      Heeds x goal b owed (.done outcome)
  | panic {b : Begun} {owed : Option Nat} {p : PanicPayload}
      {next : Action.Reply (.panic p) → Routine Outcome} (h : goal (.panicked p)) :
      Heeds x goal b owed (.act (.panic p) next)
  | become {b : Begun} {owed : Option Nat} {work : Work}
      {next : Action.Reply (.become work) → Routine Outcome} (h : ∀ outcome, goal outcome) :
      Heeds x goal b owed (.act (.become work) next)
  | report {b : Begun} {id : Nat} {result : Except CallError Json}
      {next : Unit → Routine Outcome} (h : Ran x b id result)
      (hnext : Heeds x goal b none (next ())) :
      Heeds x goal b (some id) (.act (.report (.finished id result)) next)
  | act {b : Begun} {owed : Option Nat} {action : Action}
      {next : action.Reply → Routine Outcome} (hcommon : action.IsCommon)
      (hpanic : ∀ p, action ≠ .panic p)
      (hnext : ∀ reply, Answers ⟨action, reply⟩ →
        (∀ branch, b.Told ⟨action, reply⟩ branch → Happens x branch) →
        Heeds x goal (b.after ⟨action, reply⟩) owed (next reply)) :
      Heeds x goal b owed (.act action next)

theorem Routine.bind_done {α : Type} (r : Routine α) : r.bind .done = r := by
  induction r with
  | done a => rfl
  | act action next ih => exact congrArg (act action) (funext ih)

namespace Heeds

variable {x : Exchange} {goal : Outcome → Prop} {b b' : Begun} {owed : Option Nat}
  {r : Routine Outcome}

theorem mono (hr : Heeds x goal b owed r) (h : b.Within b') : Heeds x goal b' owed r := by
  induction hr generalizing b' with
  | done hgoal => exact .done hgoal
  | panic hgoal => exact .panic hgoal
  | become hgoal => exact .become hgoal
  | report hran _ ih => exact .report (hran.mono h.jobs) (ih h)
  | act hcommon hpanic _ ih =>
    exact .act hcommon hpanic fun reply hanswered hhappens =>
      ih reply hanswered (fun branch htold => hhappens branch (htold.mono h)) (h.after _)

/-- What follows an action that every task may do. -/
theorem next {action : Action} {next : action.Reply → Routine Outcome}
    (hr : Heeds x goal b owed (.act action next)) (hcommon : action.IsCommon)
    (hpanic : ∀ p, action ≠ .panic p) {reply : action.Reply} (hanswers : Answers ⟨action, reply⟩)
    (hhappens : ∀ branch, b.Told ⟨action, reply⟩ branch → Happens x branch) :
    Heeds x goal (b.after ⟨action, reply⟩) owed (next reply) := by
  cases hr with
  | act _ _ hnext => exact hnext reply hanswers hhappens
  | panic _ => exact absurd rfl (hpanic _)
  | become _ => exact hcommon.elim
  | report _ _ => exact hcommon.elim

theorem of_done {outcome : Outcome} (hr : Heeds x goal b owed (.done outcome)) : goal outcome := by
  cases hr with
  | done hgoal => exact hgoal

theorem of_panic {p : PanicPayload} {next : Action.Reply (.panic p) → Routine Outcome}
    (hr : Heeds x goal b owed (.act (.panic p) next)) : goal (.panicked p) := by
  cases hr with
  | act _ hpanic _ => exact absurd rfl (hpanic p)
  | panic hgoal => exact hgoal

theorem of_become {work : Work} {next : Action.Reply (.become work) → Routine Outcome}
    (hr : Heeds x goal b owed (.act (.become work) next)) (outcome : Outcome) : goal outcome := by
  cases hr with
  | act hcommon _ _ => exact hcommon.elim
  | «become» hgoal => exact hgoal outcome

theorem of_modest (hgoal : ∀ outcome, goal outcome) (hr : r.Modest) (b : Begun)
    (owed : Option Nat) : Heeds x goal b owed r := by
  induction r generalizing b with
  | done outcome => exact .done (hgoal outcome)
  | act action next ih =>
    cases action with
    | panic p => exact .panic (hgoal _)
    | «become» work => exact .become hgoal
    | report report =>
      cases report with
      | finished id outcome => exact hr.1.elim
      | _ => exact .act trivial nofun fun reply _ _ => ih reply (hr.2 reply) _
    | _ => exact .act trivial nofun fun reply _ _ => ih reply (hr.2 reply) _

/-- To heed what a sequence is told, look at the runs of its first part. -/
theorem bind {α : Type} {r : Routine α} {f : α → Routine Outcome} (hr : r.Common) {b b' : Begun}
    (h : b.Within b')
    (hok : ∀ tr a, r.Runs tr (.ok a) → tr.Answered →
      (∀ branch, b.Bears tr branch → Happens x branch) →
      ∀ b'', b'.Within b'' → Heeds x goal b'' owed (f a))
    (hpanics : ∀ tr p, r.Runs tr (.error p) → tr.Answered →
      (∀ branch, b.Bears tr branch → Happens x branch) → goal (.panicked p)) :
    Heeds x goal b' owed (r.bind f) := by
  have hnil : Trace.Answered [] := fun _ hmem => by cases hmem
  induction r generalizing b b' with
  | done a => exact hok [] a ⟨rfl, rfl⟩ hnil (fun _ hbears => hbears.elim) b' (.refl b')
  | act action next ih =>
    by_cases hpanic : ∃ p, action = .panic p
    · obtain ⟨p, rfl⟩ := hpanic
      exact .panic (hpanics [] p (.inl ⟨p, rfl, rfl, rfl⟩) hnil fun _ hbears => hbears.elim)
    · refine .act hr.1 (fun p heq => hpanic ⟨p, heq⟩) fun reply hanswered hhappens => ?_
      have hbefore : ∀ branch, b.Told ⟨action, reply⟩ branch → Happens x branch :=
        fun branch htold => hhappens branch (htold.mono h)
      refine ih reply (hr.2 reply) (h.after ⟨action, reply⟩)
        (fun tr a hruns htr hbears b'' hlater => ?_) fun tr p hruns htr hbears => ?_
      · exact hok (⟨action, reply⟩ :: tr) a (.inr ⟨reply, tr, rfl, hruns⟩)
          (List.forall_mem_cons.mpr ⟨hanswered, htr⟩)
          (fun branch hb => hb.elim (hbefore branch) (hbears branch)) b''
          ((Begun.within_after b' _).trans hlater)
      · exact hpanics (⟨action, reply⟩ :: tr) p (.inr ⟨reply, tr, rfl, hruns⟩)
          (List.forall_mem_cons.mpr ⟨hanswered, htr⟩)
          fun branch hb => hb.elim (hbefore branch) (hbears branch)

theorem bind_attempt {α : Type} {r : Routine α} {f : Except PanicPayload α → Routine Outcome}
    (hr : r.Common)
    (h : ∀ tr (e : Except PanicPayload α), r.Runs tr e → tr.Answered →
      (∀ branch, Begun.Bears {} tr branch → Happens x branch) →
      ∀ b', b.Within b' → Heeds x goal b' owed (f e)) :
    Heeds x goal b owed (r.attempt.bind f) := by
  refine bind hr.attempt (Begun.within_of_empty b) (fun tr a hruns => ?_) fun tr p hruns => ?_
  · obtain ⟨e, hruns, he⟩ := Routine.runs_attempt.mp hruns
    cases he
    exact h tr a hruns
  · obtain ⟨e, -, he⟩ := Routine.runs_attempt.mp hruns
    cases he

theorem outcome {r : Routine (Except CallError Json)} (hr : r.Common)
    {P : Except PanicPayload (Except CallError Json) → Prop}
    (h : ∀ tr result, r.Runs tr result → tr.Answered →
      (∀ branch, Begun.Bears {} tr branch → Happens x branch) → P result) :
    Heeds x (fun outcome => ∃ result, P result ∧ outcome = .ofAttempt (result.map .ofResult)) b none
      r.outcome := by
  refine bind hr (Begun.within_of_empty b) (fun tr a hruns htr hbears b' _ => ?_)
    fun tr p hruns htr hbears => ?_
  · exact .done ⟨_, h tr _ hruns htr hbears, rfl⟩
  · exact ⟨_, h tr _ hruns htr hbears, rfl⟩

section Calls

variable (hx : x.registry.Common)

include hx

theorem call {name : String} {args : List Json} {caller : Option Token}
    {next : Except PanicPayload (Except CallError Json) → Routine Outcome}
    (hr : Heeds x goal b owed (.act (.call name args caller) next)) :
    Heeds x goal b owed ((x.callWait name args caller).attempt.bind next) := by
  cases hr with
  | act _ _ hnext =>
    refine bind_attempt (Exchange.common_callWait hx name args caller)
      fun tr e hruns htr hbears b' hlater => ?_
    refine (hnext e trivial fun branch htold => ?_).mono hlater
    cases htold
    exact .call hruns htr hbears

theorem launch {name : String} {args : List Json}
    {next : Except PanicPayload (Except CallError Json) → Routine Outcome}
    (hr : Heeds x goal b owed (.act (.launch name args) next)) :
    Heeds x goal b owed ((x.call name args).attempt.bind next) := by
  cases hr with
  | act _ _ hnext =>
    refine bind_attempt (Exchange.common_call hx name args)
      fun tr e hruns htr hbears b' hlater => ?_
    refine (hnext e trivial fun branch htold => ?_).mono hlater
    cases htold
    exact .launch hruns htr hbears

theorem fire {event : String} {payload : Json}
    {next : Except PanicPayload FireReport → Routine Outcome}
    (hr : Heeds x goal b owed (.act (.fire event payload) next)) :
    Heeds x goal b owed ((x.fire event payload).attempt.bind next) := by
  cases hr with
  | act _ _ hnext =>
    refine bind_attempt (Exchange.common_fire hx event payload)
      fun tr e hruns htr hbears b' hlater => ?_
    refine (hnext e trivial fun branch htold => ?_).mono hlater
    cases htold

theorem thread (name : String) (args : List Json) (context : CallContext) (b : Begun) :
    Heeds x (fun outcome => Happens x (.thread name args context outcome)) b none
      (x.work (.thread name args context)) := by
  rw [← Routine.bind_done (x.work (.thread name args context))]
  refine bind (Exchange.common_thread hx name args context) (Begun.within_of_empty b)
    (fun tr outcome hruns htr hbears b' _ => ?_) fun tr p hruns htr hbears => ?_
  · exact .done (.thread hruns htr hbears)
  · exact .thread hruns htr hbears

/-- The task of a job reports what its body has ended with. -/
theorem runJob (hgoal : ∀ outcome, goal outcome) {id : Nat} {body : JobBody}
    (hbody : (id, body) ∈ b.jobs) : Heeds x goal b (some id) (x.runJob id body) := by
  refine bind (Exchange.common_jobOutcome hx id body) (Begun.within_of_empty b)
    (fun tr result hruns htr hbears b' hlater => ?_) fun _ _ _ _ _ => hgoal _
  exact .report ⟨body, hlater.jobs hbody, tr, hruns, htr, hbears⟩ (.done (hgoal _))

end Calls

end Heeds

end Switchboard
