import Switchboard.Proofs.Hub.Guards

namespace Switchboard

namespace Hub

variable {s : Hub} {h : Chronicle} {job : Nat}

def Reported (s : Hub) (stroke : Stroke) (job : Nat) : Prop :=
  stroke = .report ∧ ∃ r : JobReport, s.letters.find? Letter.isReport = some (.report r) ∧
    r.job = job

theorem sameQueues_of_jobs {s' : Hub} (hjobs : s'.jobs = s.jobs) :
    JobTable.SameQueues s.jobs s'.jobs := by
  rw [hjobs]
  exact ⟨rfl, rfl⟩

theorem keepsPlace_adopt {t : JobTable JobBody} (ht : JobTable.KeepsPlace s.jobs t job) :
    JobTable.KeepsPlace s.jobs (s.adopt t).jobs job := by
  rw [(adopt_jobs s t).1]
  exact ht.then_same ⟨rfl, rfl⟩

/-- A request takes a job from its queue only if it has the job aborted or stops all of them. -/
theorem keepsPlace_respond (hs : s.Tidy) {r : JobRequest} (habort : r ≠ .abort job)
    (hstop : r ≠ .shutdown) : JobTable.KeepsPlace s.jobs (s.respond r).1.jobs job := by
  cases r with
  | submit new =>
    have hnew : s.jobs.nextId ∉ s.jobs.ids := fun hmem => Nat.lt_irrefl _ (hs.jobs.jobs _ hmem)
    exact keepsPlace_adopt (JobTable.keepsPlace_submit s.now new job hnew)
  | abort id =>
    refine keepsPlace_adopt (JobTable.keepsPlace_abort s.now fun heq => habort ?_)
    rw [heq]
  | get id | watch id | list | subscribe => exact fun hq => .inl hq
  | shutdown => exact absurd rfl hstop

theorem keepsPlace_handle_request (hs : s.Tidy) {r : JobRequest} (habort : r ≠ .abort job)
    (hstop : s.kept = true → r ≠ .shutdown) (task : Nat)
    (next : Except CallError r.Reply → Routine Outcome) :
    JobTable.KeepsPlace s.jobs (s.handle (.request r task next)).jobs job := by
  cases hkept : s.kept with
  | true =>
    have hopen : r.isShutdown = false := by
      cases r with
      | shutdown => exact absurd rfl (hstop hkept)
      | _ => rfl
    have hresumed := sameKeeping_resume (s.respond r).1 task (next (.ok (s.respond r).2))
    rw [handle_request hkept, hopen]
    exact (keepsPlace_respond hs habort (hstop hkept)).then_same (sameQueues_of_jobs hresumed.jobs)
  | false =>
    have hresumed := sameKeeping_resume s task (next (.error .jobManagerUnavailable))
    simp only [handle, hkept]
    exact (sameQueues_of_jobs hresumed.jobs).keepsPlace job

theorem keepsPlace_handle_report (s : Hub) {r : JobReport} (hr : job ≠ r.job) :
    JobTable.KeepsPlace s.jobs (s.handle (.report r)).jobs job := by
  cases hkept : s.kept with
  | true =>
    simp only [handle, hkept, if_true]
    exact keepsPlace_adopt (JobTable.keepsPlace_report s.now r hr)
  | false =>
    simp only [handle, hkept]
    exact fun hq => .inl hq

theorem Sound.keepsPlace_request (hs : s.Sound h) (job : Nat) :
    JobTable.KeepsPlace s.jobs (s.does .request).jobs job ∨
      Chronicle.Blames (s.heard .request ++ h) job := by
  obtain ⟨hk, dones, stage, ha⟩ := hs
  cases hfind : s.letters.find? Letter.isRequest with
  | none =>
    simp only [Hub.does, handleFirst, hfind]
    exact .inl fun hq => .inl hq
  | some letter =>
    cases letter with
    | report r => exact absurd (List.find?_some hfind) (by simp [Letter.isRequest])
    | request r task next =>
      have hposts := ha.letters r task next (List.mem_of_find?_eq_some hfind)
      rw [does_request hfind]
      simp only [heard, hfind]
      by_cases habort : r = .abort job
      · subst habort
        exact .inr (hposts.abort job rfl)
      by_cases hstop : s.kept = true ∧ r = .shutdown
      · obtain ⟨hkept, rfl⟩ := hstop
        exact .inr (.inl (by simp [heardFor, hkept]))
      · have hopened : Tidy { s with letters := s.letters.eraseP Letter.isRequest } :=
          ⟨hk.tidy.jobs, hk.tidy.settled, hk.tidy.readers⟩
        exact .inl (keepsPlace_handle_request hopened habort
          (fun hkept heq => hstop ⟨hkept, heq⟩) task next)

/-- A job that waits for a lock waits on or gets it, unless there is a reason to abort it or a
report says that it has waited too long or is done. -/
theorem Sound.keepsPlace (hs : s.Sound h) (stroke : Stroke) (job : Nat) :
    JobTable.KeepsPlace s.jobs (s.does stroke).jobs job ∨
      Chronicle.Blames (s.heard stroke ++ h) job ∨ s.Reported stroke job := by
  cases stroke with
  | begin routine =>
    exact .inl ((sameQueues_of_jobs (sameKeeping_spawn s routine none).jobs).keepsPlace job)
  | act task => exact .inl ((sameQueues_of_jobs (sameKeeping_act s task).jobs).keepsPlace job)
  | fall task => exact .inl ((sameQueues_of_jobs (sameKeeping_fallBack s task).jobs).keepsPlace job)
  | request => exact (hs.keepsPlace_request job).imp_right .inl
  | report =>
    cases hfind : s.letters.find? Letter.isReport with
    | none =>
      have hsame : s.does .report = s := by simp only [Hub.does, handleFirst, hfind]
      rw [hsame]
      exact .inl fun hq => .inl hq
    | some letter =>
      cases letter with
      | request r task next =>
        exact absurd (List.find?_some hfind) (by simp [Letter.isReport, Letter.isRequest])
      | report r =>
        by_cases hr : job = r.job
        · exact .inr (.inr ⟨rfl, r, hfind, hr.symm⟩)
        · rw [does_report hfind]
          exact .inl (keepsPlace_handle_report
            { s with letters := s.letters.eraseP Letter.isReport } hr)
  | around other | take receiver | drop receiver => exact .inl fun hq => .inl hq

def scripted (name : String) (o : JobOptions) (script : Script) : String × Method :=
  (name, { name, body := fun context args => script.run (.method context) args, job := some o })

def family (child parent : JobOptions) : Builder where
  registry := { methods := [scripted "child" child [.gate "g"],
    scripted "parent" parent [.call (.str "child") (.arr [])]] }

theorem scripted_family (child parent : JobOptions) : (family child parent).registry.Scripted where
  methods name m hm := by
    obtain ⟨l₁, l₂, heq, -⟩ := List.lookup_eq_some_iff.mp hm
    have hmem : (name, m) ∈ (family child parent).registry.methods := heq ▸ by simp
    rcases List.mem_pair.mp hmem with heq | heq <;> cases heq
    · exact ⟨[.gate "g"], fun _ _ => rfl⟩
    · exact ⟨[.call (.str "child") (.arr [])], fun _ _ => rfl⟩
  hooks event hook hmem := by cases hmem

def launch (name : String) : Routine Outcome :=
  .act (.launch name []) fun _ => .done (.returned .null)

theorem lawful_launch (name : String) : (launch name).Lawful [] .idle :=
  .plain trivial fun _ => .done _

theorem lawful_client (r : JobRequest) : (client r).Lawful [] .idle :=
  .plain trivial fun _ => .done _

/-- An abort reaches only what was submitted in the name of the job, in the name of what it
reaches, and so on: no other abort is asked for, no other body is asked to stop, and no other job
leaves the queue of its lock before it has waited too long or is done. A job counts as submitted
when the call was answered with it, though it may have been there before; in a run where no call
was answered so, the abort reaches only jobs that were made for it. -/
theorem aborts_reach_the_submitted {b : Builder} (hb : b.registry.Lawful) {strokes : List Stroke}
    (hclients : ∀ routine, .begin routine ∈ strokes → routine.Lawful [] .idle) (job : Nat) :
    (∀ task, .asked task job ∈ b.build.chronicle strokes →
      (b.build.chronicle strokes).Blames job) ∧
    (.job job ∈ (b.build.plays strokes).fired → (b.build.chronicle strokes).Blames job) ∧
    (∀ stroke, (b.build.plays strokes).jobs.Queued job →
      ((b.build.plays strokes).does stroke).jobs.Queued job ∨
      ((b.build.plays strokes).does stroke).jobs.Holds job ∨
      Chronicle.Blames ((b.build.plays strokes).heard stroke ++ b.build.chronicle strokes) job ∨
      (b.build.plays strokes).Reported stroke job) ∧
    ((∀ parent child, ¬ (b.build.chronicle strokes).Submitted parent child false) →
      .job job ∈ (b.build.plays strokes).fired → .stopped ∈ b.build.chronicle strokes ∨
        ∃ first, (b.build.chronicle strokes).Asked first ∧ Relation.ReflTransGen
          (fun parent child => (b.build.chronicle strokes).Submitted parent child true)
          first job) := by
  obtain ⟨-, dones, stage, ha⟩ := sound hb hclients
  have hblames : .job job ∈ (b.build.plays strokes).fired →
      (b.build.chronicle strokes).Blames job := by
    intro hfired
    rcases ha.fired _ hfired with ⟨job', heq, hblames⟩ | ⟨_, _, heq, -⟩ <;> cases heq
    exact hblames
  refine ⟨fun task => ha.asked task job, hblames, fun stroke hqueued => ?_,
    fun hnew hfired => ?_⟩
  · rcases (sound hb hclients).keepsPlace stroke job with hkeeps | hblames | hreported
    · exact (hkeeps hqueued).imp_right .inl
    · exact .inr (.inr (.inl hblames))
    · exact .inr (.inr (.inr hreported))
  · refine (hblames hfired).imp_right fun ⟨first, hasked, hpath⟩ => ⟨first, hasked, ?_⟩
    refine hpath.lift id fun parent child hlink => ?_
    obtain ⟨isNew, hsubmitted⟩ := hlink
    cases isNew with
    | true => exact hsubmitted
    | false => exact absurd hsubmitted (hnew parent child)

/-- A client calls a method that waits at a gate with the lock and no room in the queue; a second
one calls another method, whose call of the first is answered with the job that is there; a third
aborts the second job. -/
def foldedCall : List Stroke :=
  [.begin (launch "child"), .act 0, .act 0, .request, .act 0,
    .begin (launch "parent"), .act 2, .act 2, .request, .act 2,
    .act 3, .act 3, .request, .act 3, .act 3, .act 3,
    .begin (client (.abort 2)), .act 6, .request, .act 6, .act 5, .act 5, .request]

def crowded : Builder :=
  family { lock := fun _ => some "L", lockQueueSize := some 0, abortable := true }
    { abortable := true }

theorem lawful_foldedCall : ∀ routine, .begin routine ∈ foldedCall → routine.Lawful [] .idle := by
  intro routine hmem
  simp only [foldedCall, List.mem_cons, Stroke.begin.injEq, reduceCtorEq, List.not_mem_nil,
    or_false, false_or] at hmem
  rcases hmem with rfl | rfl | rfl
  · exact lawful_launch "child"
  · exact lawful_launch "parent"
  · exact lawful_client (.abort 2)

theorem chronicle_foldedCall : crowded.build.chronicle foldedCall =
    [.asked 5 1, .asked 6 2, .armed 3 ⟨5, .job 2, 1, .root 4⟩, .answered 3 1 false,
      .called 3 (.job 2), .answered 2 2 true, .answered 0 1 true] := by
  decide +kernel

/-- The job of the first client is reached through the call of the second. -/
theorem aborts_reach_the_folded :
    crowded.registry.Lawful ∧
    (∀ routine, .begin routine ∈ foldedCall → routine.Lawful [] .idle) ∧
    .job 1 ∈ (crowded.build.plays foldedCall).fired ∧
    (crowded.build.chronicle foldedCall).Blames 1 := by
  have hb : crowded.registry.Lawful := (scripted_family _ _).lawful
  have hfired : .job 1 ∈ (crowded.build.plays foldedCall).fired := by decide +kernel
  exact ⟨hb, lawful_foldedCall, hfired,
    (aborts_reach_the_submitted hb lawful_foldedCall 1).2.1 hfired⟩

/-- The job of the first client was not made for any job whose abort was asked for. -/
theorem folded_is_no_descendant :
    .job 1 ∈ (crowded.build.plays foldedCall).fired ∧
    .stopped ∉ crowded.build.chronicle foldedCall ∧
    ¬ ∃ first, (crowded.build.chronicle foldedCall).Asked first ∧ Relation.ReflTransGen
      (fun parent child => (crowded.build.chronicle foldedCall).Submitted parent child true)
      first 1 := by
  rw [chronicle_foldedCall]
  refine ⟨by decide +kernel, by simp, ?_⟩
  rintro ⟨first, hasked, hpath⟩
  cases hpath with
  | refl =>
    simp [Chronicle.asked_cons_iff, Chronicle.not_asked_nil] at hasked
  | tail _ hlink =>
    obtain ⟨task, caller, hanswered, -⟩ := hlink
    simp [Chronicle.answered_cons_iff, Chronicle.caller?,
      Chronicle.not_answered_nil] at hanswered

def isStuck (s : Hub) (t : Task) : Bool :=
  match t.routine with
  | .done _ => false
  | .act (.ask _) _ => false
  | .act action next => (s.step t.id action next).2.isNone

def isQuiet (s : Hub) : Bool :=
  s.letters.isEmpty && s.tasks.all s.isStuck &&
    s.tasks.all fun t => t.fallback.all fun f => !s.isCancelled f.1

theorem stuck_of_isStuck {t : Task} (ht : s.isStuck t = true) : ∃ action next,
    t.routine = .act action next ∧ (∀ r, action ≠ .ask r) ∧
      (s.step t.id action next).2 = none := by
  unfold isStuck at ht
  split at ht
  next => cases ht
  next => cases ht
  next action next hnot hroutine =>
    refine ⟨action, next, hroutine, fun r heq => ?_, Option.isNone_iff_eq_none.mp ht⟩
    subst heq
    exact hnot r next rfl HEq.rfl

theorem quiet_of_isQuiet (hs : s.isQuiet = true) : s.Quiet := by
  simp only [isQuiet, Bool.and_eq_true, List.all_eq_true, List.isEmpty_iff] at hs
  obtain ⟨⟨hletters, hstuck⟩, hsettled⟩ := hs
  refine ⟨hletters, fun t ht => stuck_of_isStuck (hstuck t ht), fun t ht f hf => ?_⟩
  have hfallback := hsettled t ht
  rw [hf] at hfallback
  simpa using hfallback

/-- A token that was made in the name of a job is cancelled with the job. -/
theorem isCancelled_of_job {caller : Token} (hcaller : caller.job? = some job)
    (hfired : .job job ∈ s.fired) : s.isCancelled caller = true := by
  unfold isCancelled
  induction caller with
  | job id =>
    cases Option.some.inj hcaller
    simpa [Token.isCancelled] using hfired
  | root n => cases hcaller
  | child n parent ih => simp [Token.isCancelled, ih hcaller]

/-- Where nothing is left to do, no guard whose caller is cancelled is still on its way. -/
theorem Quiet.dealt_of_armed {dones : List (Nat × Nat)} {stage : Nat → CallStage} {task : Nat}
    {ward : Ward} (hq : s.Quiet) (ha : s.Accounts s.letters h dones stage none)
    (hward : .armed task ward ∈ h) (hcancelled : s.isCancelled ward.caller = true) :
    s.Dealt ward.job := by
  have hp := ha.wards task ward hward
  rcases hp.there with ⟨t, ht, hid⟩ | hdealt
  · obtain ⟨action, next, hroutine, hasks, hstuck⟩ := hq.stuck t ht
    have hkeeps := hp.keeps t ht hid (by simp)
    rw [hroutine] at hkeeps
    generalize hr : (Routine.act action next : Routine Outcome) = r at hkeeps
    cases hkeeps with
    | waits =>
      obtain ⟨rfl, hnext⟩ := Routine.act.inj hr
      cases hnext
      simp [step, hcancelled] at hstuck
    | asks _ _ =>
      obtain ⟨rfl, -⟩ := Routine.act.inj hr
      exact absurd rfl (hasks _)
    | ended hdealt => exact hdealt
  · exact hdealt

/-- Where nothing is left to do, no task is between the answer to a call and the guard. -/
theorem Quiet.not_between {dones : List (Nat × Nat)} {stage : Nat → CallStage} {t : Task}
    (hq : s.Quiet) (ha : s.Accounts s.letters h dones stage none) (ht : t ∈ s.tasks)
    (caller : Token) (job : Nat) :
    stage t.id ≠ .answered caller job ∧ ∀ done, stage t.id ≠ .named caller job done := by
  obtain ⟨own, hlawful, -, -⟩ := ha.minds t ht (by simp)
  obtain ⟨action, next, hroutine, -, hstuck⟩ := hq.stuck t ht
  rw [hroutine] at hlawful
  refine ⟨fun hstage => ?_, fun done hstage => ?_⟩
  · rw [hstage] at hlawful
    cases hlawful
    cases hstuck
  · rw [hstage] at hlawful
    cases hlawful
    cases hstuck

/-- Once a job was asked to stop and nothing is left to do, every job that was submitted in its
name is over, or was asked to stop, or cannot be aborted; unless a body was dropped after it had
the job submitted and before it had put the job under guard. -/
theorem submitted_dealt_with_unless_dropped {b : Builder} (hb : b.registry.Lawful)
    {strokes : List Stroke}
    (hclients : ∀ routine, .begin routine ∈ strokes → routine.Lawful [] .idle)
    (hquiet : (b.build.plays strokes).Quiet) {parent task : Nat} {caller : Token} {isNew : Bool}
    (hfired : .job parent ∈ (b.build.plays strokes).fired)
    (hanswered : (b.build.chronicle strokes).Answered task caller job isNew)
    (hparent : caller.job? = some parent) :
    (b.build.plays strokes).Dealt job ∨
      (.dropped task ∈ b.build.chronicle strokes ∧
        ¬ (b.build.chronicle strokes).Armed task caller job) := by
  obtain ⟨-, dones, stage, ha⟩ := sound hb hclients
  have hcancelled := isCancelled_of_job hparent hfired
  by_cases harmed : (b.build.chronicle strokes).Armed task caller job
  · obtain ⟨ward, hward, rfl, rfl⟩ := harmed
    exact .inl (hquiet.dealt_of_armed ha hward hcancelled)
  rcases ha.cares task caller job isNew hanswered with hdropped | harmed' | ⟨⟨t, ht, rfl⟩, hstage⟩
  · exact .inr ⟨hdropped, harmed⟩
  · exact absurd harmed' harmed
  · obtain ⟨hnotAnswered, hnotNamed⟩ := hquiet.not_between ha ht caller job
    rcases hstage with hstage | ⟨done, hstage⟩
    · exact absurd hstage hnotAnswered
    · exact absurd hstage (hnotNamed done)

def roomy : Builder := family { abortable := true } { abortable := true }

/-- A client aborts a job that waits for the end of a call. -/
def guardedCall : List Stroke :=
  [.begin (launch "parent"), .act 0, .act 0, .request, .act 0,
    .act 1, .act 1, .request, .act 1, .act 1,
    .begin (client (.abort 1)), .act 5, .request, .act 5, .fall 1, .report,
    .act 4, .act 4, .request, .act 4, .fall 2, .report]

theorem lawful_guardedCall : ∀ routine, .begin routine ∈ guardedCall →
    routine.Lawful [] .idle := by
  intro routine hmem
  simp only [guardedCall, List.mem_cons, Stroke.begin.injEq, reduceCtorEq, List.not_mem_nil,
    or_false, false_or] at hmem
  rcases hmem with rfl | rfl
  · exact lawful_launch "parent"
  · exact lawful_client (.abort 1)

theorem chronicle_guardedCall : roomy.build.chronicle guardedCall =
    [.dropped 2, .asked 4 2, .dropped 1, .asked 5 1, .armed 1 ⟨4, .job 1, 2, .root 3⟩,
      .answered 1 2 true, .called 1 (.job 1), .answered 0 1 true] := by
  decide +kernel

/-- The guard sees to the job that was called, though the caller is dropped. -/
theorem submitted_dealt_with_by_guard :
    roomy.registry.Lawful ∧
    (∀ routine, .begin routine ∈ guardedCall → routine.Lawful [] .idle) ∧
    (roomy.build.plays guardedCall).Quiet ∧
    .job 1 ∈ (roomy.build.plays guardedCall).fired ∧
    (roomy.build.chronicle guardedCall).Answered 1 (.job 1) 2 true ∧
    (roomy.build.plays guardedCall).Dealt 2 := by
  have hb : roomy.registry.Lawful := (scripted_family _ _).lawful
  have hquiet : (roomy.build.plays guardedCall).Quiet := quiet_of_isQuiet (by decide +kernel)
  have hfired : .job 1 ∈ (roomy.build.plays guardedCall).fired := by decide +kernel
  have hanswered : (roomy.build.chronicle guardedCall).Answered 1 (.job 1) 2 true := by
    rw [chronicle_guardedCall]
    simp [Chronicle.answered_cons_iff, Chronicle.caller?]
  have harmed : (roomy.build.chronicle guardedCall).Armed 1 (.job 1) 2 := by
    rw [chronicle_guardedCall]
    exact ⟨⟨4, .job 1, 2, .root 3⟩, by simp, rfl, rfl⟩
  refine ⟨hb, lawful_guardedCall, hquiet, hfired, hanswered, ?_⟩
  rcases submitted_dealt_with_unless_dropped hb lawful_guardedCall hquiet hfired hanswered rfl with
    hdealt | ⟨-, hnot⟩
  · exact hdealt
  · exact absurd harmed hnot

/-- A client aborts a job whose call is on its way to the keeper. The answer comes, and then the
body is dropped before it can take it. -/
def lostCall : List Stroke :=
  [.begin (launch "parent"), .act 0, .act 0, .request, .act 0, .act 1, .act 1,
    .begin (client (.abort 1)), .act 2, .request, .request, .fall 1, .report, .act 2, .act 3]

theorem chronicle_lostCall : roomy.build.chronicle lostCall =
    [.dropped 1, .answered 1 2 true, .asked 2 1, .called 1 (.job 1), .answered 0 1 true] := by
  decide +kernel

/-- The caller was aborted, nothing is left to do, and the job that it called runs on. -/
theorem lost_call_runs_on :
    (roomy.build.plays lostCall).Quiet ∧
    (roomy.build.chronicle lostCall).Submitted 1 2 true ∧
    ((roomy.build.plays lostCall).jobs.snapshot? 1).map JobSnapshot.state = some .aborted ∧
    ((roomy.build.plays lostCall).jobs.snapshot? 2).map (fun s => (s.state, s.abortable)) =
      some (.running, true) ∧
    .job 2 ∉ (roomy.build.plays lostCall).fired := by
  refine ⟨quiet_of_isQuiet (by decide +kernel), ⟨1, .job 1, ?_, rfl⟩, by decide +kernel,
    by decide +kernel, by decide +kernel⟩
  rw [chronicle_lostCall]
  simp [Chronicle.answered_cons_iff, Chronicle.caller?]

end Hub

end Switchboard
