import Mathlib.Logic.Relation
import Switchboard.Proofs.Jobs.Sound

namespace Switchboard

def JobEffect.revealed? {β : Type} : JobEffect β → Option JobSnapshot
  | .reveal s => some s
  | _ => none

namespace JobTable

variable {β : Type} {t t' : JobTable β} {id now : Nat} {e : JobEntry β} {lock : String}

def reveals (t : JobTable β) : List JobSnapshot := t.effects.filterMap JobEffect.revealed?

theorem reveals_wants (t : JobTable β) (effects : List (JobEffect β)) :
    (t.wants effects).reveals = t.reveals ++ effects.filterMap JobEffect.revealed? := by
  simp [reveals, wants]

theorem reveals_log (t : JobTable β) (level : LogLevel) (text : String) :
    (t.log level text).reveals = t.reveals := by
  rw [log_eq, reveals_wants]
  simp [JobEffect.revealed?]

theorem reveals_publish (t : JobTable β) (id : Nat) (type : EventType) :
    (t.publish id type).reveals = t.reveals := by
  have hnone : (t.news id type).filterMap JobEffect.revealed? = [] := by
    unfold news
    split
    next => rfl
    next => split <;> rfl
  rw [publish_eq, reveals_wants, hnone, List.append_nil]

theorem reveals_change (t : JobTable β) (id : Nat) (s : JobSnapshot) :
    (t.change id s).reveals = t.reveals ++ [s] := by
  rw [change, reveals_publish, want_eq, reveals_wants]
  rfl

theorem reveals_transition {next : JobState} (edit : JobSnapshot → JobSnapshot)
    (h : t.job? id = some e) (hnext : e.state.canBecome next) :
    (t.transition id next edit).1.reveals =
      t.reveals ++ [edit { e.snapshot with state := next }] := by
  have hs : e.snapshot.state.canBecome next = true := hnext
  simp only [transition, snapshot?_eq h, hs, if_true]
  exact reveals_change _ _ _

theorem reveals_start {body : β} (now : Nat) (h : t.job? id = some e) (hb : e.body = some body)
    (hs : e.state = .waiting) :
    (t.start now id).reveals = t.reveals ++ [(e.begun now).snapshot] := by
  have hjob : (t.takeBody id).job? id = some { e with body := none } := by
    rw [(sameBut_takeBody h).job?, if_pos rfl]
  have hcan : JobState.canBecome e.state .running = true := by rw [hs]; rfl
  have hshown := reveals_transition (fun s => { s with timeStarted := some now }) hjob hcan
  have htaken : (t.takeBody id).reveals = t.reveals := by
    rw [takeBody, want_eq, reveals_wants]
    simp [JobEffect.revealed?, List.filterMap_cons, reveals, update]
  rw [start_eq now h hb hs, want_eq, reveals_wants, reveals_log, hshown, htaken]
  simp [JobEffect.revealed?, List.filterMap_cons, JobEntry.begun]

theorem reveals_retire (t : JobTable β) (id : Nat) : (t.retire id).reveals = t.reveals := by
  have hevict : ∀ (t : JobTable β) (id : Nat), (t.evict id).reveals = t.reveals := by
    intro t id
    rw [evict, want_eq, reveals_wants]
    have hpublish := reveals_publish t id .removed
    simpa [JobEffect.revealed?, List.filterMap_cons, reveals] using hpublish
  have hevicts : ∀ (gone : List Nat) (t : JobTable β),
      (gone.foldl evict t).reveals = t.reveals := by
    intro gone
    induction gone with
    | nil => exact fun t => rfl
    | cons id rest ih => exact fun t => (ih (t.evict id)).trans (hevict t id)
  unfold retire
  split
  next =>
    rw [want_eq, reveals_wants]
    simp [JobEffect.revealed?, List.filterMap_cons, reveals]
  next => exact hevicts _ _

theorem reveals_noteEnd (now : Nat) (outcome : Except CallError Json) (h : t.job? id = some e)
    (hrun : e.state = .running) :
    (t.noteEnd now id outcome e).reveals = t.reveals ++ [(e.settled now outcome).snapshot] := by
  have hcan : e.state.canBecome (endState (settled e.cancelled outcome)) = true := by
    rw [hrun]
    exact canBecome_of_running (endState_isTerminal _)
  have hlogged : (t.want (.log (endRecord id (settled e.cancelled outcome)))).job? id = some e := h
  rw [noteEnd, reveals_transition _ hlogged hcan, want_eq, reveals_wants]
  simp [JobEffect.revealed?, List.filterMap_cons, JobEntry.settled]

theorem JustEnded.reveals_release {e' : JobEntry β} (h : JustEnded t t' id e e') (ho : t.Orderly)
    (hrun : e.state = .running) (now : Nat) :
    ∃ more, (t'.release now id).reveals = t'.reveals ++ more ∧ ∀ s ∈ more, s.id ≠ id := by
  cases hl : e.snapshot.lock with
  | none =>
    rw [JobTable.release_unlocked h.now_is (h.lock.trans hl)]
    exact ⟨[], by simp, by simp⟩
  | some lock =>
    obtain ⟨waiting, hq⟩ := ho.holder ⟨e, h.was, hrun, hl⟩
    have hq' := (h.same.queue? lock).trans hq
    cases waiting with
    | nil =>
      rw [JobTable.release_last h.now_is (h.lock.trans hl) hq']
      exact ⟨[], by simp [reveals, dropQueue], by simp⟩
    | cons next rest =>
      obtain ⟨x, body, -, hx, hb, hw, -, hne⟩ := h.next_waits ho hq
      have hlogged : ((t'.setQueue lock ⟨some next, rest⟩).wants
          [.log ⟨.debug, s!"Lock {lock} passed from job {id} to job {next}"⟩]).job? next =
            some x := hx
      rw [release_heir now h.now_is (h.lock.trans hl) hq', reveals_start now hlogged hb hw,
        reveals_wants]
      refine ⟨[(x.begun now).snapshot], by simp [JobEffect.revealed?, List.filterMap_cons, reveals,
        setQueue, dropQueue], fun s hs => ?_⟩
      cases List.mem_singleton.mp hs
      exact fun heq => hne ((job?_id hx).symm.trans heq)

theorem Sound.reveals_finish (h : t.Sound) (he : t.job? id = some e) (hrun : e.state = .running)
    (now : Nat) (outcome : Except CallError Json) :
    ∃ more, (t.finish now id outcome).reveals =
        t.reveals ++ (e.settled now outcome).snapshot :: more ∧ ∀ s ∈ more, s.id ≠ id := by
  have hended := h.justEnded he hrun now outcome
  obtain ⟨more, hmore, hother⟩ := hended.reveals_release h.orderly hrun now
  refine ⟨more, ?_, hother⟩
  rw [finish_eq now outcome he, reveals_retire, hmore, reveals_noteEnd now outcome he hrun,
    List.append_assoc, List.singleton_append]

/-- The lock of a job whose body has ended goes to the job that has waited longest. -/
theorem Sound.finish_hands_on {next : Nat} {rest : List Nat} (h : t.Sound)
    (he : t.job? id = some e) (hrun : e.state = .running) (hl : e.snapshot.lock = some lock)
    (hq : t.queue? lock = some ⟨some id, next :: rest⟩) (now : Nat)
    (outcome : Except CallError Json) :
    (t.finish now id outcome).queue? lock = some ⟨some next, rest⟩ ∧
      (t.finish now id outcome).Has .running (some lock) next ∧
      ∃ body, (t.finish now id outcome).starts = t.starts ++ [(next, body)] := by
  have hended := h.justEnded he hrun now outcome
  obtain ⟨body, ho, hadv, hqueue⟩ := hended.release_next h.orderly hl hq now
  have hr := h.remembers_release hended (by simp [hrun, JobState.isTerminal]) now
  obtain ⟨gone, hf, -⟩ := retire_forgets hr
  obtain ⟨hsound, hadv'⟩ := sound_retire ho hr hadv
  rw [finish_eq now outcome he]
  have hqueue' : (((t.noteEnd now id outcome e).release now id).retire id).queue? lock =
      some ⟨some next, rest⟩ := by
    rw [queue?, hf.locks]
    exact hqueue
  obtain ⟨holder, hholder, -, hruns, -⟩ := hqueue' ▸ hsound.orderly.queues lock
  exact ⟨hqueue', (hruns next).mpr (Option.some.inj hholder), body, hadv'.starts⟩

theorem Sound.finish_frees (h : t.Sound) (he : t.job? id = some e) (hrun : e.state = .running)
    (hl : e.snapshot.lock = some lock) (hq : t.queue? lock = some ⟨some id, []⟩) (now : Nat)
    (outcome : Except CallError Json) : (t.finish now id outcome).queue? lock = none := by
  have hended := h.justEnded he hrun now outcome
  have hr := h.remembers_release hended (by simp [hrun, JobState.isTerminal]) now
  obtain ⟨gone, hf, -⟩ := retire_forgets hr
  have hq' := (hended.same.queue? lock).trans hq
  rw [finish_eq now outcome he, queue?, hf.locks,
    JobTable.release_last hended.now_is (hended.lock.trans hl) hq']
  exact (queue?_dropQueue _ lock lock).trans (if_pos rfl)

/-- Whatever can happen to a table while the end of one job is not reported. -/
inductive Moves (id : Nat) : JobTable β → JobTable β → Prop where
  | submit (t : JobTable β) (now : Nat) (job : NewJob β) : Moves id t (t.submit now job).1
  | abort (t : JobTable β) (now other : Nat) : Moves id t (t.abort now other).1
  | progress (t : JobTable β) (other percent : Nat) (description : Option String) :
      Moves id t (t.progress other percent description)
  | lockTimedOut (t : JobTable β) (now other : Nat) : Moves id t (t.lockTimedOut now other)
  | finish (t : JobTable β) (now other : Nat) (outcome : Except CallError Json)
      (hne : other ≠ id) (hrun : ∃ held, t.Has .running held other) :
      Moves id t (t.finish now other outcome)
  | settle (t : JobTable β) : Moves id t { t with effects := [] }

variable {held : Option String}

theorem Has.not_waiting {other : Option String} (h : t.Has .running held id) :
    ¬ t.Has .waiting other id := fun hw => by cases (h.unique hw).1

theorem Advances.still_running {ended : List Nat} {started : List (Nat × β)}
    (h : Advances t t' ended started) (hrun : t.Has .running held id) (hnot : id ∉ ended) :
    t'.Has .running held id :=
  (h.running held id).mpr (.inl ⟨hrun, hnot⟩)

theorem Sound.moves (h : t.Sound) (hrun : t.Has .running held id) (hmoves : Moves id t t') :
    t'.Sound ∧ t'.Has .running held id := by
  cases hmoves with
  | submit now job =>
    cases hstand : t.standIn? job with
    | some folded =>
      simp only [JobTable.submit, hstand, log_eq]
      exact ⟨h.wants _, hrun⟩
    | none =>
      obtain ⟨hsound, started, hadv⟩ := h.submit now hstand
      refine ⟨hsound, hadv.still_running ?_ (by simp)⟩
      exact (h.orderly.running_enter_iff now job held id).mpr hrun
  | abort now other =>
    obtain ⟨hsound, ended, hadv, hended⟩ := h.abort now other
    refine ⟨hsound, hadv.still_running hrun fun hid => ?_⟩
    obtain ⟨rfl, lock, hw⟩ := (hended id).mp hid
    exact hrun.not_waiting hw
  | progress other percent description =>
    obtain ⟨hsound, hadv⟩ := h.progress other percent description
    exact ⟨hsound, hadv.still_running hrun (by simp)⟩
  | lockTimedOut now other =>
    obtain ⟨hsound, ended, hadv, hended⟩ := h.timeout now other
    refine ⟨hsound, hadv.still_running hrun fun hid => ?_⟩
    obtain ⟨rfl, lock, hw⟩ := (hended id).mp hid
    exact hrun.not_waiting hw
  | finish now other outcome hne hother =>
    obtain ⟨lock, e, he, hs, -⟩ := hother
    obtain ⟨started, hsound, hadv⟩ := h.finish he hs now outcome
    refine ⟨hsound, hadv.still_running hrun ?_⟩
    simpa using hne.symm
  | settle => exact ⟨h.withEffects [], hrun⟩

/-- A job whose end is never reported runs for ever and keeps its lock. -/
theorem Sound.runs_for_ever (h : t.Sound) (hrun : t.Has .running held id)
    (hmoves : Relation.ReflTransGen (Moves id) t t') :
    t'.Sound ∧ t'.Has .running held id ∧
      ∀ lock, held = some lock → ∃ waiting, t'.queue? lock = some ⟨some id, waiting⟩ := by
  have hkept : t'.Sound ∧ t'.Has .running held id := by
    induction hmoves with
    | refl => exact ⟨h, hrun⟩
    | tail _ hstep ih => exact ih.1.moves ih.2 hstep
  obtain ⟨hsound, hstill⟩ := hkept
  refine ⟨hsound, hstill, fun lock hheld => ?_⟩
  subst hheld
  exact hsound.orderly.holder hstill

end JobTable

end Switchboard
