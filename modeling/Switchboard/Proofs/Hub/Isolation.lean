import Switchboard.Hub.Client
import Switchboard.Proofs.Calls.Panics
import Switchboard.Proofs.Hub.Waiters
import Switchboard.Proofs.Jobs.Runs

namespace Switchboard

open Routine JobTable

section Wait

variable {x : Exchange} {m : Method} {o : JobOptions} {args cleaned : List Json} {tr : Trace}

/-- What surrounds the wait for a job: with a caller there is a guard, until the wait is over. -/
def Guarded (id : Nat) (before after : Trace) : Option Token → Prop
  | none => before = [] ∧ after = []
  | some caller => ∃ done task, before = [⟨.newToken none, done⟩,
      ⟨.spawn (.guard id caller done), task⟩] ∧ after = [⟨.cancel done, ()⟩]

def jobOfCall (x : Exchange) (m : Method) (o : JobOptions) (args cleaned : List Json) :
    NewJob JobBody :=
  o.newJob m.name args cleaned m.blocking x.defaultLockTimeout (.method m.name cleaned args)

def submission (x : Exchange) (m : Method) (o : JobOptions) (args cleaned : List Json)
    (reply : Except CallError Nat) : Sigma Action.Reply :=
  ⟨.ask (.submit (jobOfCall x m o args cleaned)), reply⟩

theorem runs_jobResult {id : Nat} {e : Except PanicPayload (Except CallError Json)} :
    (Exchange.jobResult id).Runs tr e ↔ ∃ ending, tr = [⟨.awaitJob id none, ending⟩] ∧
      e = .ok (Except.bind ending JobSnapshot.outcome) := by
  refine (runs_ask_bind (by simp)).trans ?_
  constructor
  · rintro ⟨ending, rest, rfl, rfl, he⟩
    exact ⟨ending, rfl, he⟩
  · rintro ⟨ending, rfl, he⟩
    exact ⟨ending, [], rfl, rfl, he⟩

theorem submit_of_clean (hclean : Accepts.clean m.accepts args = .ok cleaned) :
    x.submit m o args = ask (.ask (.submit (jobOfCall x m o args cleaned))) := by
  simp only [Exchange.submit, hclean]
  rfl

theorem runs_call_job {e : Except PanicPayload (Except CallError Json)}
    (hm : x.registry.method? m.name = some m) (hjob : m.job = some o)
    (hclean : Accepts.clean m.accepts args = .ok cleaned) :
    (x.call m.name args).Runs tr e ↔ ∃ reply,
      tr = [submission x m o args cleaned reply] ∧ e = .ok (reply.map .nat) := by
  simp only [Exchange.call, hm, hjob, submit_of_clean hclean]
  refine (runs_ask_bind (by simp)).trans ?_
  constructor
  · rintro ⟨reply, rest, rfl, rfl, he⟩
    exact ⟨reply, rfl, he⟩
  · rintro ⟨reply, rfl, he⟩
    exact ⟨reply, [], rfl, rfl, he⟩

/-- To call a job and wait for it is to submit it and to be told of its end. -/
theorem runs_callWait_job {e : Except PanicPayload (Except CallError Json)}
    {caller : Option Token} (hm : x.registry.method? m.name = some m) (hjob : m.job = some o)
    (hclean : Accepts.clean m.accepts args = .ok cleaned) :
    (x.callWait m.name args caller).Runs tr e ↔
      (∃ error, tr = [submission x m o args cleaned (.error error)] ∧ e = .ok (.error error)) ∨
      ∃ id ending before after, Guarded id before after caller ∧
        tr = submission x m o args cleaned (.ok id) ::
          (before ++ ⟨.awaitJob id none, ending⟩ :: after) ∧
        e = .ok (Except.bind ending JobSnapshot.outcome) := by
  simp only [Exchange.callWait, hm, hjob, submit_of_clean hclean]
  constructor
  · intro h
    obtain ⟨submitted, rest, rfl, hrest⟩ := (runs_ask_bind (by simp)).mp h
    cases submitted with
    | error error =>
      obtain ⟨rfl, rfl⟩ := hrest
      exact .inl ⟨error, rfl, rfl⟩
    | ok id =>
      cases caller with
      | none =>
        obtain ⟨ending, rfl, rfl⟩ := runs_jobResult.mp hrest
        exact .inr ⟨id, ending, [], [], ⟨rfl, rfl⟩, rfl, rfl⟩
      | some caller =>
        obtain ⟨done, tr₁, rfl, hguard⟩ := (runs_ask_bind (by simp)).mp hrest
        obtain ⟨task, tr₂, rfl, hwait⟩ := (runs_ask_bind (by simp)).mp hguard
        rcases runs_bind.mp hwait with ⟨p, hresult, rfl⟩ | ⟨result, tr₃, tr₄, rfl, hresult, hdone⟩
        · obtain ⟨ending, -, he⟩ := runs_jobResult.mp hresult
          cases he
        · obtain ⟨ending, rfl, he⟩ := runs_jobResult.mp hresult
          obtain ⟨⟨⟩, tr₅, rfl, rfl, rfl⟩ := (runs_ask_bind (by simp)).mp hdone
          cases he
          exact .inr ⟨id, ending, _, _, ⟨done, task, rfl, rfl⟩, rfl, rfl⟩
  · rintro (⟨error, rfl, rfl⟩ | ⟨id, ending, before, after, hguarded, rfl, rfl⟩)
    · exact (runs_ask_bind (by simp)).mpr ⟨_, [], rfl, rfl, rfl⟩
    · refine (runs_ask_bind (by simp)).mpr ⟨_, _, rfl, ?_⟩
      have hresult := runs_jobResult.mpr ⟨ending, rfl, rfl⟩
      cases caller with
      | none =>
        obtain ⟨rfl, rfl⟩ := hguarded
        exact hresult
      | some caller =>
        obtain ⟨done, task, rfl, rfl⟩ := hguarded
        refine (runs_ask_bind (by simp)).mpr ⟨done, _, rfl, ?_⟩
        refine (runs_ask_bind (by simp)).mpr ⟨task, _, rfl, ?_⟩
        refine runs_bind.mpr (.inr ⟨_, [_], _, rfl, hresult, ?_⟩)
        exact (runs_ask_bind (by simp)).mpr ⟨(), [], rfl, rfl, rfl⟩

end Wait

theorem end_of_failed_call {β : Type} (e : JobEntry β) (now : Nat) (method text : String) :
    (e.settled now (.error (.call method text))).snapshot.state =
        (if e.cancelled then .aborted else .failed) ∧
      (e.settled now (.error (.call method text))).snapshot.outcome =
        .error (if e.cancelled then .aborted else .call method text) := by
  cases hc : e.cancelled <;>
    simp [JobEntry.settled, JobTable.settled, hc, endState, endSnapshot, JobSnapshot.outcome]

/-- What the end of a running job with an error comes to: those who wait for the job are told, and
its lock is handed on. -/
structure HandlesFailure (t : JobTable JobBody) (e : JobEntry JobBody) (now : Nat)
    (method text : String) : Prop where
  state : (e.settled now (.error (.call method text))).snapshot.state =
    if e.cancelled then .aborted else .failed
  outcome : (e.settled now (.error (.call method text))).snapshot.outcome =
    .error (if e.cancelled then .aborted else .call method text)
  told : ∀ s : Hub,
    let s' := s.adopt (t.report now (.finished e.id (.error (.call method text))))
    s'.board.ending? e.id = some (.ok (e.settled now (.error (.call method text))).snapshot) ∧
      ∀ task ∈ s'.tasks, Hub.awaits e.id task → s'.HasTurn task
  handedOn : ∀ lock next rest, e.snapshot.lock = some lock →
    t.queue? lock = some ⟨some e.id, next :: rest⟩ →
    let t' := t.report now (.finished e.id (.error (.call method text)))
    t'.queue? lock = some ⟨some next, rest⟩ ∧ t'.Has .running (some lock) next ∧
      ∃ body, t'.starts = t.starts ++ [(next, body)]
  freed : ∀ lock, e.snapshot.lock = some lock → t.queue? lock = some ⟨some e.id, []⟩ →
    (t.report now (.finished e.id (.error (.call method text)))).queue? lock = none

theorem JobTable.Sound.handlesFailure {t : JobTable JobBody} {e : JobEntry JobBody} {id : Nat}
    (h : t.Sound) (he : t.job? id = some e) (hrun : e.state = .running) (now : Nat)
    (method text : String) : HandlesFailure t e now method text := by
  have hid : e.id = id := job?_id he
  obtain ⟨hstate, houtcome⟩ := end_of_failed_call e now method text
  subst hid
  refine ⟨hstate, houtcome, fun s => ?_, fun lock next rest hl hq => ?_, fun lock hl hq => ?_⟩
  · obtain ⟨more, hshown, hother⟩ := h.reveals_finish he hrun now (.error (.call method text))
    have hsid : (e.settled now (.error (.call method text))).snapshot.id = e.id :=
      endSnapshot_id now _ _
    have hend := isTerminal_of_settled now (.error (.call method text)) e
    have htold := Hub.waiters_are_told hshown (hsid.symm ▸ hother) hend s
    rw [hsid] at htold
    exact htold
  · exact h.finish_hands_on he hrun hl hq now _
  · exact h.finish_frees he hrun hl hq now _

/-- How far a panic of the handler of a method goes when the method is called with arguments that
are cleaned so. -/
structure PanicsContained (x : Exchange) (m : Method) (args cleaned : List Json) : Prop where
  call : m.job = none → ∀ tr e, (x.call m.name args).Runs tr e ↔
    ∃ token trh h, HandlerEnds m { token } cleaned trh h ∧
      tr = Exchange.callTrace m args none token trh h ∧ e = h.answer m.name
  callWait : m.job = none → ∀ caller tr e, (x.callWait m.name args caller).Runs tr e ↔
    ∃ token trh h, HandlerEnds m { token } cleaned trh h ∧
      tr = Exchange.callTrace m args caller token trh h ∧ e = h.answer m.name
  told : ∀ point p, point ≠ .called →
    ∃ text, (HandlerEnd.panicked point p).answer m.name = .ok (.error (.call m.name text))
  escapes : ∀ (h : HandlerEnd) p, h.answer m.name = .error p ↔ h = .panicked .called p
  called : ∀ context tr p, HandlerEnds m context cleaned tr (.panicked .called p) ↔
    m.blocking = false ∧ (m.body context cleaned).prepare.Runs tr (.error p)
  thread : ∀ context tr e, (x.work (.thread m.name cleaned context)).Runs tr e ↔
    (∃ p, (m.body context cleaned).prepare.Runs tr (.error p) ∧ e = .error p) ∨
      ∃ tr₁ tr₂, tr = tr₁ ++ tr₂ ∧ (m.body context cleaned).prepare.Runs tr₁ (.ok ()) ∧
        (m.body context cleaned).run.Runs tr₂ e
  /-- The task of a job reports what a caller would be told, once and at last, and nothing if the
  panic is its own. -/
  job : ∀ id tr e, (x.runJob id (.method m.name cleaned args)).Runs tr e ↔
    ∃ trh h, HandlerEnds m ⟨.job id, some id⟩ cleaned trh h ∧
      match h.answer m.name with
      | .error p => tr = trh ∧ e = .error p
      | .ok result =>
        tr = trh ++ h.epilogue m.name args ++ [⟨.report (.finished id result), ()⟩] ∧
          e = .ok (.returned .null)
  submitted : ∀ o, m.job = some o → ∀ tr e, (x.call m.name args).Runs tr e ↔
    ∃ reply, tr = [submission x m o args cleaned reply] ∧ e = .ok (reply.map .nat)
  wait : ∀ o, m.job = some o → ∀ caller tr e, (x.callWait m.name args caller).Runs tr e ↔
    (∃ error, tr = [submission x m o args cleaned (.error error)] ∧ e = .ok (.error error)) ∨
    ∃ id ending before after, Guarded id before after caller ∧
      tr = submission x m o args cleaned (.ok id) ::
        (before ++ ⟨.awaitJob id none, ending⟩ :: after) ∧
      e = .ok (Except.bind ending JobSnapshot.outcome)
  reported : ∀ maxRetained (w : Workshop JobBody), w.Reachable maxRetained →
    ∀ id e, w.table.job? id = some e → e.state = .running →
    ∀ now text, HandlesFailure w.table e now m.name text
  /-- A job that reports nothing runs for ever and keeps its lock. -/
  unreported : ∀ maxRetained (w : Workshop JobBody), w.Reachable maxRetained →
    ∀ held id, w.table.Has .running held id →
    ∀ t, Relation.ReflTransGen (Moves id) w.table t → t.Has .running held id ∧
      ∀ lock, held = some lock → ∃ waiting, t.queue? lock = some ⟨some id, waiting⟩

theorem runs_thread {x : Exchange} {m : Method} {args : List Json} {context : CallContext}
    {tr : Trace} {e : Except PanicPayload Outcome} (hm : x.registry.method? m.name = some m) :
    (x.work (.thread m.name args context)).Runs tr e ↔
      (∃ p, (m.body context args).prepare.Runs tr (.error p) ∧ e = .error p) ∨
        ∃ tr₁ tr₂, tr = tr₁ ++ tr₂ ∧ (m.body context args).prepare.Runs tr₁ (.ok ()) ∧
          (m.body context args).run.Runs tr₂ e := by
  simp only [Exchange.work, hm]
  refine runs_bind.trans (or_congr Iff.rfl ?_)
  constructor
  · rintro ⟨⟨⟩, tr₁, tr₂, htr, hprepare, hrun⟩
    exact ⟨tr₁, tr₂, htr, hprepare, hrun⟩
  · rintro ⟨tr₁, tr₂, htr, hprepare, hrun⟩
    exact ⟨(), tr₁, tr₂, htr, hprepare, hrun⟩

/-- The panic of a handler stays with its method, unless the handler panics as it is called. -/
theorem panics_contained_unless_called {x : Exchange} {m : Method} {args cleaned : List Json}
    (hm : x.registry.method? m.name = some m)
    (hclean : Accepts.clean m.accepts args = .ok cleaned) : PanicsContained x m args cleaned where
  call hjob _ _ := Exchange.runs_call hm hjob hclean
  callWait hjob _ _ _ := Exchange.runs_callWait hm hjob hclean
  told point p := HandlerEnd.answer_panicked m.name p
  escapes _ _ := HandlerEnd.answer_eq_error_iff
  called context tr p := by
    constructor
    · intro h
      generalize hend : HandlerEnd.panicked .called p = h' at h
      cases h with
      | called hblocking hprepare =>
        cases hend
        exact ⟨hblocking, hprepare⟩
      | @polled _ _ e =>
        generalize Outcome.ofAttempt e = outcome at hend
        cases outcome <;> cases hend
      | @onThread task outcome => cases outcome <;> cases hend
    · rintro ⟨hblocking, hprepare⟩
      exact .called hblocking hprepare
  thread _ _ _ := runs_thread hm
  job _ _ _ := Exchange.runs_runJob hm
  submitted _ hjob _ _ := runs_call_job hm hjob hclean
  wait _ hjob _ _ _ := runs_callWait_job hm hjob hclean
  reported _ w hw _ _ he hrun now text :=
    (Workshop.sound_of_reachable hw).1.table.handlesFailure he hrun now m.name text
  unreported _ w hw _ _ hrun _ hmoves :=
    ((Workshop.sound_of_reachable hw).1.table.runs_for_ever hrun hmoves).2

def faulty (prepare : Routine Unit) (job : Option JobOptions) : Method where
  name := "m"
  body _ _ := { prepare, run := Routine.done (.panicked (.text "boom")) }
  job

def faultyExchange (prepare : Routine Unit) (job : Option JobOptions) : Exchange where
  registry := { methods := [("m", faulty prepare job)] }

theorem panic_contained_while_waited_for :
    ((faultyExchange (Routine.done ()) none).call "m" []).Runs
      (Exchange.callTrace (faulty (Routine.done ()) none) [] none (.root 0) []
        (.panicked .polled (.text "boom")))
      (.ok (.error (.call "m" "boom"))) := by
  have hcontained : PanicsContained (faultyExchange (Routine.done ()) none)
      (faulty (Routine.done ()) none) [] [] := panics_contained_unless_called rfl rfl
  have hends : HandlerEnds (faulty (Routine.done ()) none) { token := .root 0 } []
      ([] ++ []) (.ofOutcome .polled (.ofAttempt (.ok (.panicked (.text "boom"))))) :=
    .polled rfl ⟨rfl, rfl⟩ ⟨rfl, rfl⟩
  exact (hcontained.call rfl _ _).mpr ⟨.root 0, [], _, hends, rfl, rfl⟩

/-- A hub in which the method has been called twice as a job for one lock. -/
def calledTwice (prepare : Routine Unit) : Hub :=
  let x := faultyExchange prepare (some { lock := fun _ => some "L" })
  let s : Hub := { exchange := x, jobs := { maxRetained := 100 } }
  ((s.begin (x.callJob "m" []).outcome).2.begin (x.callJob "m" []).outcome).2

/-- A panic of the call that begins the handler escapes a plain call. The task of a job dies of it,
with nothing left to be done, while the job runs on in the table and the next one waits. -/
theorem panic_of_call_not_contained :
    ((faultyExchange (Routine.panic (.text "boom")) none).call "m" []).Runs
        [⟨.newToken none, .root 0⟩, ⟨.log ⟨.debug, "Calling m"⟩, ()⟩] (.error (.text "boom")) ∧
      (calledTwice (Routine.panic (.text "boom"))).jobs.jobs.map (fun e => (e.id, e.state)) =
        [(1, .running), (2, .waiting)] ∧
      (calledTwice (Routine.panic (.text "boom"))).tasks.length = 0 ∧
      (calledTwice (Routine.panic (.text "boom"))).letters.length = 0 ∧
      (calledTwice (Routine.panic (.text "boom"))).turns = [] := by
  refine ⟨?_, by decide +kernel, by decide +kernel, by decide +kernel, by decide +kernel⟩
  exact .inr ⟨.root 0, _, rfl, .inr ⟨(), [], rfl, .inl ⟨.text "boom", rfl, rfl, rfl⟩⟩⟩

end Switchboard
