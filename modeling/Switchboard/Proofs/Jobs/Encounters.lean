import Switchboard.Proofs.Jobs.Courses

namespace Switchboard

theorem JobEntry.reported_eq_self {β : Type} {e : JobEntry β} {percent : Nat}
    {description : Option String}
    (h : (e.reported percent description).snapshot.progress = e.snapshot.progress) :
    e.reported percent description = e := by
  have hsame : e.snapshot.progress.report percent description = e.snapshot.progress := h
  rw [reported, hsame]

theorem JobEntry.unfinished_of_running {β : Type} {e : JobEntry β} (h : e.state = .running) :
    e.state.isTerminal = false := by
  rw [h]
  rfl

namespace JobTable

variable {β : Type} {t t' t'' : JobTable β} {id k now : Nat} {e e' e'' x : JobEntry β}
  {shown shown' : List JobSnapshot}

/-- What is shown of a job on the way from one table to another. -/
def Shows (t t' : JobTable β) (id : Nat) (shown : List JobSnapshot) : Prop :=
  ∃ more, t'.reveals = t.reveals ++ more ∧ (more.filter fun s => s.id = id) = shown

/-- The job is still there, and this was made of it. -/
structure ComesTo (t t' : JobTable β) (id : Nat) (shown : List JobSnapshot) (e : JobEntry β) :
    Prop where
  job? : t'.job? id = some e
  shows : Shows t t' id shown

/-- This was made of the job, but if it has ended by then, it may be forgotten. -/
structure Leaves (t t' : JobTable β) (id : Nat) (shown : List JobSnapshot) (e : JobEntry β) :
    Prop where
  job? : t'.job? id = some e ∨ e.state.isTerminal = true ∧ t'.job? id = none
  shows : Shows t t' id shown

theorem shows_nothing (id : Nat) (h : t'.reveals = t.reveals) : Shows t t' id [] :=
  ⟨[], by rw [h, List.append_nil], rfl⟩

theorem shows_only {more : List JobSnapshot} (id : Nat) (h : t'.reveals = t.reveals ++ more)
    (hk : ∀ s ∈ more, s.id = k) : Shows t t' id (if id = k then more else []) := by
  refine ⟨more, h, ?_⟩
  split
  next heq =>
    apply List.filter_eq_self.mpr
    intro s hs
    exact decide_eq_true ((hk s hs).trans heq.symm)
  next hne =>
    apply List.filter_eq_nil_iff.mpr
    intro s hs
    have hsk := hk s hs
    simp only [decide_eq_true_eq]
    omega

theorem Shows.trans (h : Shows t t' id shown) (h' : Shows t' t'' id shown') :
    Shows t t'' id (shown ++ shown') := by
  obtain ⟨more, hmore, rfl⟩ := h
  obtain ⟨more', hmore', rfl⟩ := h'
  exact ⟨more ++ more', by rw [hmore', hmore, List.append_assoc], List.filter_append ..⟩

theorem Shows.of_settled (h : Shows t t' id shown) (hsettled : t.effects = []) :
    shownOf id t'.effects = shown := by
  obtain ⟨more, hmore, rfl⟩ := h
  have hnone : t.reveals = [] := by rw [reveals, hsettled, List.filterMap_nil]
  rw [hnone, List.nil_append] at hmore
  rw [shownOf, ← reveals, hmore]

theorem comesTo_same (he : t.job? id = some e) (hjob : t'.job? id = t.job? id)
    (hreveals : t'.reveals = t.reveals) : ComesTo t t' id [] e :=
  ⟨hjob.trans he, shows_nothing id hreveals⟩

theorem SameBut.comesTo (h : SameBut t t' k x) (hshown : t'.reveals = t.reveals ++ shown)
    (hk : ∀ s ∈ shown, s.id = k) (he : t.job? id = some e) :
    ComesTo t t' id (if id = k then shown else []) (if id = k then x else e) := by
  refine ⟨?_, shows_only id hshown hk⟩
  rw [h.job?]
  split
  next => rfl
  next => exact he

theorem ComesTo.trans (h : ComesTo t t' id shown e) (h' : ComesTo t' t'' id shown' e') :
    ComesTo t t'' id (shown ++ shown') e' := ⟨h'.job?, h.shows.trans h'.shows⟩

theorem ComesTo.leaves (h : ComesTo t t' id shown e) : Leaves t t' id shown e :=
  ⟨.inl h.job?, h.shows⟩

theorem ComesTo.then_leaves (h : ComesTo t t' id shown e) (h' : Leaves t' t'' id shown' e') :
    Leaves t t'' id (shown ++ shown') e' := ⟨h'.job?, h.shows.trans h'.shows⟩

theorem Leaves.wants (h : Leaves t t' id shown e) (effects : List (JobEffect β))
    (hnone : effects.filterMap JobEffect.revealed? = []) :
    Leaves t (t'.wants effects) id shown e := by
  have hquiet : (t'.wants effects).reveals = t'.reveals := by
    rw [reveals_wants, hnone, List.append_nil]
  have hshows := h.shows.trans (shows_nothing id hquiet)
  rw [List.append_nil] at hshows
  exact ⟨h.job?, hshows⟩

theorem leaves_retire (he : t.job? id = some e) (hr : t.Remembers [k]) :
    Leaves t (t.retire k) id [] e := by
  obtain ⟨gone, hforgets, hover⟩ := retire_forgets hr
  refine ⟨?_, shows_nothing id (reveals_retire t k)⟩
  rw [hforgets.job?]
  split
  next hgone =>
    obtain ⟨y, hy, hend⟩ := hover id hgone
    cases he.symm.trans hy
    exact .inr ⟨hend, rfl⟩
  next => exact .inl he

theorem start_comesTo {body : β} (now : Nat) (hx : t.job? k = some x) (hbody : x.body = some body)
    (hwait : x.state = .waiting) (he : t.job? id = some e) :
    ComesTo t (t.start now k) id (if id = k then [(x.begun now).snapshot] else [])
      (if id = k then x.begun now else e) := by
  have hsame := (start_spec now hx hbody hwait).1
  have hid : x.snapshot.id = k := job?_id hx
  refine hsame.comesTo (reveals_start now hx hbody hwait) (fun s hs => ?_) he
  rw [List.mem_singleton.mp hs]
  exact hid

theorem Sound.comesTo_enter (h : t.Sound) (now : Nat) (job : NewJob β) (he : t.job? id = some e) :
    ComesTo t (t.enter now job) id [] e := by
  have hlow : id < t.nextId := h.inOrder.low_of_job? he
  have hne : id ≠ t.nextId := Nat.ne_of_lt hlow
  refine ⟨?_, ?_⟩
  · rw [(h.orderly.enter now job).job?, if_neg hne, he]
  · have hshows := shows_only (k := t.nextId) id (reveals_enter t now job) (fun s hs => by
      rw [List.mem_singleton.mp hs]
      rfl)
    rwa [if_neg hne] at hshows

theorem Sound.comesTo_queueUp (h : t.Sound) (now : Nat) {job : NewJob β}
    (he : (t.enter now job).job? id = some e) (lock : String) (timeout : Option Nat) :
    (t.queue? lock = none ∧ ComesTo (t.enter now job)
        ((t.enter now job).queueUp now t.nextId lock timeout) id
        (if id = t.nextId then [((fresh now t.nextId job).begun now).snapshot] else [])
        (if id = t.nextId then (fresh now t.nextId job).begun now else e)) ∨
      (t.queue? lock).isSome ∧ ComesTo (t.enter now job)
        ((t.enter now job).queueUp now t.nextId lock timeout) id [] e := by
  have hnew : (t.enter now job).job? t.nextId = some (fresh now t.nextId job) := by
    rw [(h.orderly.enter now job).job?, if_pos rfl]
  have hqueue := queue?_enter t now job lock
  cases hq : t.queue? lock with
  | none =>
    refine .inl ⟨rfl, ?_⟩
    let taken := (t.enter now job).setQueue lock ⟨some t.nextId, []⟩
    have htaken : ComesTo (t.enter now job) taken id [] e := comesTo_same he rfl rfl
    rw [queueUp_free (hqueue.trans hq)]
    exact htaken.trans (start_comesTo (t := taken) now hnew rfl rfl he)
  | some q =>
    refine .inr ⟨rfl, ?_⟩
    obtain ⟨holder, hholder, -⟩ := hq ▸ h.orderly.queues lock
    obtain ⟨running, waiting⟩ := q
    cases hholder
    rw [queueUp_held now t.nextId timeout (hqueue.trans hq)]
    refine comesTo_same he rfl ?_
    rw [reveals_wants]
    cases timeout <;> exact List.append_nil _

theorem Sound.comesTo_submit (h : t.Sound) (now : Nat) (job : NewJob β)
    (he : t.job? id = some e) : ComesTo t (t.submit now job).1 id [] e := by
  have hlow : id < t.nextId := h.inOrder.low_of_job? he
  have hne : id ≠ t.nextId := Nat.ne_of_lt hlow
  have hentered := h.comesTo_enter now job he
  unfold JobTable.submit
  split
  next => exact comesTo_same he rfl (reveals_log t _ _)
  next =>
    have hnew : (t.enter now job).job? t.nextId = some (fresh now t.nextId job) := by
      rw [(h.orderly.enter now job).job?, if_pos rfl]
    dsimp only
    split
    next lock _ =>
      rcases h.comesTo_queueUp now hentered.job? lock job.lockTimeout with ⟨-, hcome⟩ | ⟨-, hcome⟩
      · rw [if_neg hne, if_neg hne] at hcome
        exact hentered.trans hcome
      · exact hentered.trans hcome
    next =>
      have hstarted := start_comesTo now hnew rfl rfl hentered.job?
      rw [if_neg hne, if_neg hne] at hstarted
      exact hentered.trans hstarted

theorem Sound.submit_comesTo (h : t.Sound) (now : Nat) {job : NewJob β}
    (hnone : t.standIn? job = none) :
    let new := fresh now t.nextId job
    (∃ lock, job.lock = some lock ∧ (t.queue? lock).isSome ∧
        ComesTo t (t.submit now job).1 t.nextId [new.snapshot] new) ∨
      (∀ lock, job.lock = some lock → t.queue? lock = none) ∧
        ComesTo t (t.submit now job).1 t.nextId [new.snapshot, (new.begun now).snapshot]
          (new.begun now) := by
  have hnew : (t.enter now job).job? t.nextId = some (fresh now t.nextId job) := by
    rw [(h.orderly.enter now job).job?, if_pos rfl]
  have hshows := shows_only (k := t.nextId) t.nextId (reveals_enter t now job) fun s hs => by
    rw [List.mem_singleton.mp hs]
    rfl
  rw [if_pos rfl] at hshows
  have hentered : ComesTo t (t.enter now job) t.nextId [(fresh now t.nextId job).snapshot]
      (fresh now t.nextId job) := ⟨hnew, hshows⟩
  simp only [JobTable.submit, hnone]
  cases hl : job.lock with
  | none =>
    have hstarted := start_comesTo now hnew rfl rfl hnew
    rw [if_pos rfl, if_pos rfl] at hstarted
    refine .inr ⟨fun lock hlock => ?_, hentered.trans hstarted⟩
    cases hlock
  | some lock =>
    rcases h.comesTo_queueUp now hnew lock job.lockTimeout with ⟨hfree, hcome⟩ | ⟨hheld, hcome⟩
    · rw [if_pos rfl, if_pos rfl] at hcome
      refine .inr ⟨fun other hother => ?_, hentered.trans hcome⟩
      cases hother
      exact hfree
    · exact .inl ⟨lock, rfl, hheld, hentered.trans hcome⟩

/-- A waiting job is dismissed: it leaves its queue, and then it ends. -/
theorem Sound.dismissal (state : JobState) (h : t.Sound) (hx : t.job? k = some x)
    (hwait : x.state = .waiting) (hterminal : state.isTerminal = true)
    (hnext : JobState.canBecome .waiting state = true) (now : Nat) (error : CallError) :
    ∃ t', SameBut (t.release now k) t' k (x.dismissed now state error) ∧
      t'.reveals = t.reveals ++ [(x.dismissed now state error).snapshot] ∧ t'.Remembers [k] ∧
      (t.release now k).job? = t.job? ∧
      (t.release now k).finishUnstarted now k state error = t'.retire k := by
  obtain ⟨lock, holder, waiting, -, -, -, hrelease⟩ := h.orderly.release_waiting hx hwait now
  have hjobs : (t.release now k).job? = t.job? := by
    rw [hrelease]
    rfl
  have hx' : (t.release now k).job? k = some x := by rw [hjobs, hx]
  obtain ⟨t', hsame, hstarts, hfinish⟩ := finishUnstarted_spec now error hx' (hwait ▸ hnext)
  have hended : JustEnded (t.release now k) t' k x (x.dismissed now state error) :=
    ⟨hx', hsame, hterminal, rfl, rfl, hstarts⟩
  have hover : SameOver t (t.release now k) := sameOver_release h.orderly.bodies now k
  have hremembers := (h.remembers.sameOver hover).just_ended hended (by rw [hwait]; rfl)
  have hshown := h.reveals_dismiss state hx hwait hnext now error
  rw [hfinish, reveals_retire] at hshown
  exact ⟨t', hsame, hshown, hremembers, hjobs, hfinish⟩

theorem Sound.leaves_dismiss (state : JobState) (h : t.Sound) (hx : t.job? k = some x)
    (hwait : x.state = .waiting) (hterminal : state.isTerminal = true)
    (hnext : JobState.canBecome .waiting state = true) (now : Nat) (error : CallError)
    (he : t.job? id = some e) :
    Leaves t ((t.release now k).finishUnstarted now k state error) id
      (if id = k then [(x.dismissed now state error).snapshot] else [])
      (if id = k then x.dismissed now state error else e) := by
  obtain ⟨t', hsame, hshown, hremembers, hjobs, hfinish⟩ :=
    h.dismissal state hx hwait hterminal hnext now error
  have hid : x.snapshot.id = k := job?_id hx
  have hcome : ComesTo t t' id (if id = k then [(x.dismissed now state error).snapshot] else [])
      (if id = k then x.dismissed now state error else e) := by
    refine ⟨?_, shows_only id hshown fun s hs => ?_⟩
    · rw [hsame.job?, hjobs]
      split
      next => rfl
      next => exact he
    · rw [List.mem_singleton.mp hs]
      exact hid
  rw [hfinish]
  have hleft := hcome.then_leaves (leaves_retire hcome.job? hremembers)
  rwa [List.append_nil] at hleft

theorem asked_comesTo (hx : t.job? k = some x) (he : t.job? id = some e) :
    ComesTo t ((t.update k fun e => { e with cancelled := true }).want (.cancel k)) id []
      (if id = k then x.asked else e) := by
  have hsame := (sameBut_update (f := fun e => { e with cancelled := true }) hx
    fun _ hid => hid).wants [.cancel k]
  have hquiet : ((t.update k fun e => { e with cancelled := true }).want (.cancel k)).reveals =
      t.reveals ++ [] := by
    rw [want_eq, reveals_wants]
    rfl
  have hcome := hsame.comesTo hquiet (by simp) he
  rwa [ite_self] at hcome

theorem progress_eq (percent : Nat) (description : Option String) (he : t.job? id = some e) :
    t.progress id percent description =
      if e.state = .running ∧
        (e.reported percent description).snapshot.progress ≠ e.snapshot.progress
      then t.change id (e.reported percent description).snapshot else t := by
  simp only [progress, snapshot?_eq he]
  rfl

theorem change_comesTo {s : JobSnapshot} (hx : t.job? k = some x) (hs : s.id = k)
    (he : t.job? id = some e) : ComesTo t (t.change k s) id (if id = k then [s] else [])
      (if id = k then { x with snapshot := s } else e) := by
  refine (sameBut_change hx hs).comesTo (reveals_change t k s) (fun y hy => ?_) he
  rw [List.mem_singleton.mp hy]
  exact hs

theorem progress_comesTo (percent : Nat) (description : Option String) (he : t.job? id = some e)
    (hrun : e.state = .running) :
    ComesTo t (t.progress id percent description) id
      (if (e.reported percent description).snapshot.progress = e.snapshot.progress then []
        else [(e.reported percent description).snapshot]) (e.reported percent description) := by
  rw [progress_eq percent description he]
  by_cases hsame : (e.reported percent description).snapshot.progress = e.snapshot.progress
  · rw [if_neg fun h => h.2 hsame, if_pos hsame, JobEntry.reported_eq_self hsame]
    exact comesTo_same he rfl rfl
  · have hid : e.snapshot.id = id := job?_id he
    have hcome := change_comesTo (s := (e.reported percent description).snapshot) he hid he
    rw [if_pos rfl, if_pos rfl] at hcome
    rw [if_pos ⟨hrun, hsame⟩, if_neg hsame]
    exact hcome

theorem progress_comesTo_other (percent : Nat) (description : Option String)
    (he : t.job? id = some e) (hne : id ≠ k ∨ e.state ≠ .running) :
    ComesTo t (t.progress k percent description) id [] e := by
  cases hx : t.job? k with
  | none =>
    simp only [progress, snapshot?, hx]
    exact comesTo_same he rfl rfl
  | some x =>
    rw [progress_eq percent description hx]
    split
    next hp =>
      have hne : id ≠ k := by
        rintro rfl
        cases he.symm.trans hx
        exact hne.elim (fun h => h rfl) fun h => h hp.1
      have hid : x.snapshot.id = k := job?_id hx
      have hcome := change_comesTo (s := (x.reported percent description).snapshot) hx hid he
      rwa [if_neg hne, if_neg hne] at hcome
    next => exact comesTo_same he rfl rfl

theorem JustEnded.comesTo_release (h : JustEnded t t' k x e') (ho : t.Orderly)
    (hrun : x.state = .running) (now : Nat) (he : t'.job? id = some e) :
    ComesTo t' (t'.release now k) id [] e ∨
      id ≠ k ∧ e.state = .waiting ∧ e.snapshot.lock = x.snapshot.lock ∧
        ComesTo t' (t'.release now k) id [(e.begun now).snapshot] (e.begun now) := by
  cases hl : x.snapshot.lock with
  | none =>
    rw [JobTable.release_unlocked h.now_is (h.lock.trans hl)]
    exact .inl (comesTo_same he rfl rfl)
  | some lock =>
    obtain ⟨waiting, hq⟩ := ho.holder ⟨x, h.was, hrun, hl⟩
    have hq' := (h.same.queue? lock).trans hq
    cases waiting with
    | nil =>
      rw [JobTable.release_last h.now_is (h.lock.trans hl) hq']
      exact .inl (comesTo_same he rfl rfl)
    | cons next rest =>
      obtain ⟨y, body, -, hy, hbody, hwait, hlock, hne⟩ := h.next_waits ho hq
      let passed := (t'.setQueue lock ⟨some next, rest⟩).wants
        [.log ⟨.debug, s!"Lock {lock} passed from job {k} to job {next}"⟩]
      have hquiet : passed.reveals = t'.reveals := by
        rw [reveals_wants]
        exact List.append_nil _
      have hpassed : ComesTo t' passed id [] e := comesTo_same he rfl hquiet
      rw [release_heir now h.now_is (h.lock.trans hl) hq']
      have hstarted := hpassed.trans
        (start_comesTo (t := passed) now hy hbody hwait hpassed.job?)
      by_cases hid : id = next
      · subst hid
        cases he.symm.trans hy
        rw [if_pos rfl, if_pos rfl] at hstarted
        exact .inr ⟨hne, hwait, hlock, hstarted⟩
      · rw [if_neg hid, if_neg hid] at hstarted
        exact .inl hstarted

theorem Sound.leaves_finish (h : t.Sound) (he : t.job? id = some e) (hrun : e.state = .running)
    (now : Nat) (outcome : Except CallError Json) :
    Leaves t (t.finish now id outcome) id [(e.settled now outcome).snapshot]
      (e.settled now outcome) := by
  have hended := h.justEnded he hrun now outcome
  have hremembers := h.remembers_release hended (by rw [hrun]; rfl) now
  have hid : (e.settled now outcome).snapshot.id = id := (endSnapshot_id now _ _).trans (job?_id he)
  have hnoted := hended.same.comesTo (reveals_noteEnd now outcome he hrun)
    (by simpa using hid) he
  rw [if_pos rfl, if_pos rfl] at hnoted
  rw [finish_eq now outcome he]
  rcases hended.comesTo_release h.orderly hrun now hnoted.job? with hcome | ⟨hne, -⟩
  · exact (hnoted.trans hcome).then_leaves (leaves_retire hcome.job? hremembers)
  · exact absurd rfl hne

theorem Sound.leaves_finish_other (h : t.Sound) (hx : t.job? k = some x)
    (hrun : x.state = .running) (now : Nat) (outcome : Except CallError Json)
    (he : t.job? id = some e) (hne : id ≠ k) :
    Leaves t (t.finish now k outcome) id [] e ∨
      e.state = .waiting ∧ e.snapshot.lock = x.snapshot.lock ∧
        Leaves t (t.finish now k outcome) id [(e.begun now).snapshot] (e.begun now) := by
  have hended := h.justEnded hx hrun now outcome
  have hremembers := h.remembers_release hended (by rw [hrun]; rfl) now
  have hid : (x.settled now outcome).snapshot.id = k := (endSnapshot_id now _ _).trans (job?_id hx)
  have hnoted := hended.same.comesTo (reveals_noteEnd now outcome hx hrun) (by simpa using hid) he
  rw [if_neg hne, if_neg hne] at hnoted
  rw [finish_eq now outcome hx]
  rcases hended.comesTo_release h.orderly hrun now hnoted.job? with
    hcome | ⟨-, hwait, hlock, hcome⟩
  · exact .inl ((hnoted.trans hcome).then_leaves (leaves_retire hcome.job? hremembers))
  · exact .inr ⟨hwait, hlock,
      (hnoted.trans hcome).then_leaves (leaves_retire hcome.job? hremembers)⟩

theorem filter_jobs (h : t.ids.Pairwise (· < ·)) (he : t.job? id = some e) :
    (t.jobs.filter fun x => x.id = id) = [e] := by
  have hsorted : t.jobs.Pairwise fun x y => x.id < y.id := List.pairwise_map.mp h
  have hid : e.id = id := job?_id he
  obtain ⟨-, before, after, heq, hbefore⟩ := List.find?_eq_some_iff_append.mp he
  rw [heq] at hsorted ⊢
  have hafter := (List.pairwise_cons.mp (List.pairwise_append.mp hsorted).2.1).1
  have hnone : (before.filter fun x => x.id = id) = [] := by
    apply List.filter_eq_nil_iff.mpr
    intro x hx
    simpa using hbefore x hx
  have hnone' : (after.filter fun x => x.id = id) = [] := by
    apply List.filter_eq_nil_iff.mpr
    intro x hx
    have hlt := hafter x hx
    simp only [decide_eq_true_eq]
    omega
  rw [List.filter_append, List.filter_cons, hnone, hnone', if_pos (decide_eq_true hid),
    List.nil_append]

theorem Sound.leaves_stopAll (h : t.Sound) (hsettled : t.effects = []) (now : Nat)
    (he : t.job? id = some e) :
    Leaves t (t.stopAll now).1 id
      (if e.state = .waiting then [(e.dismissed now .aborted .aborted).snapshot] else [])
      (e.stopped now) := by
  have hdown := h.shutsDown hsettled now
  have hnone : t.reveals = [] := by rw [reveals, hsettled, List.filterMap_nil]
  refine ⟨?_, _, by rw [hnone, List.nil_append], ?_⟩
  · rw [hdown.jobs, he, Option.bind_some]
    split
    next hgone => exact .inr ⟨hgone.1, rfl⟩
    next => exact .inl rfl
  · have hthis : ((fun s : JobSnapshot => decide (s.id = id)) ∘
        fun e : JobEntry β => (e.dismissed now .aborted .aborted).snapshot) =
          fun e => decide (e.id = id) := rfl
    rw [hdown.shown, List.filter_map, hthis, List.filter_filter]
    have hswap : (t.jobs.filter fun a => decide (a.id = id) && decide (a.state = .waiting)) =
        (t.jobs.filter fun a => a.id = id).filter fun a => a.state = .waiting := by
      rw [List.filter_filter]
      exact List.filter_congr fun _ _ => Bool.and_comm _ _
    rw [hswap, filter_jobs h.orderly.sorted he]
    by_cases hwait : e.state = .waiting <;> simp [hwait]

end JobTable

namespace Workshop

variable {β : Type} {w : Workshop β} {a : Act β} {id : Nat} {e : JobEntry β}

namespace Act

def job? : Act β → Option Nat
  | .abort _ id => some id
  | .handle _ _ r _ => some r.job
  | _ => none

def lock? (t : JobTable β) : Act β → Option String
  | .submit _ job => job.lock
  | a => a.job?.bind fun id => (t.snapshot? id).bind (·.lock)

/-- The act is about this job, or about all of them. -/
def Concerns (a : Act β) (id : Nat) : Prop := a.job? = some id ∨ a.stops = true

end Act

/-- What an act about a job with this lock makes of a job, and what is shown of that. -/
inductive Meets (a : Act β) (held : Option String) (e : JobEntry β) :
    List JobSnapshot → JobEntry β → Prop where
  | spared (h : e.state = .running → ∀ r, a.heard? = some r → r.sender? ≠ some e.id) :
      Meets a held e [] e
  | begins (now : Nat) (hwait : e.state = .waiting) (hlock : e.snapshot.lock = held) :
      Meets a held e [(e.begun now).snapshot] (e.begun now)
  | reports (percent : Nat) (description : Option String) (hrun : e.state = .running)
      (hheard : a.heard? = some (.progressed e.id percent description)) :
      Meets a held e
        (if (e.reported percent description).snapshot.progress = e.snapshot.progress then []
          else [(e.reported percent description).snapshot]) (e.reported percent description)
  | asked (hrun : e.state = .running) (hquiet : a.heard? = none) (habout : a.Concerns e.id) :
      Meets a held e [] e.asked
  | settled (now : Nat) (outcome : Except CallError Json) (hrun : e.state = .running)
      (hheard : a.heard? = some (.finished e.id outcome)) :
      Meets a held e [(e.settled now outcome).snapshot] (e.settled now outcome)
  | dismissed (now : Nat) (state : JobState) (error : CallError) (hwait : e.state = .waiting)
      (hends : e.Ends (e.dismissed now state error)) (habout : a.Concerns e.id) :
      Meets a held e [(e.dismissed now state error).snapshot] (e.dismissed now state error)

/-- What becomes of a job of the table when the table takes an act. -/
def Encounters (t : JobTable β) (a : Act β) (id : Nat) (e : JobEntry β) : Prop :=
  ∃ shown e', Meets a (a.lock? t) e shown e' ∧ JobTable.Leaves t (a.onTable t) id shown e'

theorem meets_unheard (held : Option String) (e : JobEntry β) (h : a.heard? = none) :
    Meets a held e [] e := by
  refine .spared fun _ r hr => ?_
  rw [h] at hr
  cases hr

theorem Meets.of_ended {held : Option String} {e' : JobEntry β} {shown : List JobSnapshot}
    (h : Meets a held e shown e') (hend : e.state.isTerminal = true) : e' = e ∧ shown = [] := by
  have hopen : ∀ state : JobState, e.state = state → state.isTerminal = true := by
    rintro state rfl
    exact hend
  cases h with
  | spared => exact ⟨rfl, rfl⟩
  | begins _ hwait | dismissed _ _ _ hwait => cases hopen _ hwait
  | reports _ _ hrun | asked hrun | settled _ _ hrun => cases hopen _ hrun

section Shown

variable {held : Option String} {e' : JobEntry β} {shown more : List JobSnapshot}

theorem Meets.shown_is (h : Meets a held e more e') : more = [] ∨ more = [e'.snapshot] := by
  cases h with
  | spared | asked => exact .inl rfl
  | begins | settled | dismissed => exact .inr rfl
  | reports percent description =>
    split
    next => exact .inl rfl
    next => exact .inr rfl

theorem Meets.mem_shown (h : Meets a held e more e') {s : JobSnapshot} (hs : s ∈ more) :
    s = e'.snapshot := by
  rcases h.shown_is with rfl | rfl
  · cases hs
  · exact List.mem_singleton.mp hs

theorem Meets.still_open (h : Meets a held e more e')
    (hopen : ∀ s ∈ shown, s.state.isTerminal = false) (hstill : e'.state.isTerminal = false) :
    ∀ s ∈ shown ++ more, s.state.isTerminal = false := by
  refine List.forall_mem_append.mpr ⟨hopen, fun s hs => ?_⟩
  rw [h.mem_shown hs]
  exact hstill

/-- If an act ends a job, then that end is the first that is shown of it. -/
theorem Meets.first_end {P : JobSnapshot → Prop} (h : Meets a held e more e')
    (hopen : ∀ s ∈ shown, s.state.isTerminal = false) (hP : P e'.snapshot) :
    ∀ s ∈ shown ++ more, s.state.isTerminal = true → P s := by
  refine List.forall_mem_append.mpr ⟨fun s hs hend => ?_, fun s hs _ => ?_⟩
  · cases (hopen s hs).symm.trans hend
  · rw [h.mem_shown hs]
    exact hP

end Shown

theorem encounters_nothing {t : JobTable β} (he : t.job? id = some e)
    (hspared : Meets a (a.lock? t) e [] e) (hsame : a.onTable t = t) : Encounters t a id e := by
  refine ⟨[], e, hspared, ?_⟩
  rw [hsame]
  exact (JobTable.comesTo_same he rfl rfl).leaves

theorem encounters_dismiss {t : JobTable β} {k now : Nat} {x : JobEntry β} {state : JobState}
    {error : CallError} (he : t.job? id = some e) (hx : t.job? k = some x)
    (hwait : x.state = .waiting) (hends : x.Ends (x.dismissed now state error))
    (habout : a.Concerns k) (hspared : Meets a (a.lock? t) e [] e)
    (hleft : JobTable.Leaves t (a.onTable t) id
      (if id = k then [(x.dismissed now state error).snapshot] else [])
      (if id = k then x.dismissed now state error else e)) : Encounters t a id e := by
  refine ⟨_, _, ?_, hleft⟩
  by_cases hid : id = k
  · subst hid
    cases he.symm.trans hx
    have hself : e.id = id := JobTable.job?_id he
    rw [if_pos rfl, if_pos rfl]
    exact .dismissed now state error hwait hends (hself.symm ▸ habout)
  · rw [if_neg hid, if_neg hid]
    exact hspared

theorem Sound.encounters_abort (h : w.Sound) (now k : Nat) (he : w.table.job? id = some e) :
    Encounters w.table (.abort now k) id e := by
  have hunheard : (Act.abort now k : Act β).heard? = none := rfl
  have hspared := meets_unheard ((Act.abort now k).lock? w.table) e hunheard
  have htable : (Act.abort now k).onTable w.table = (w.table.abort now k).1 := rfl
  cases hx : w.table.job? k with
  | none =>
    simp only [JobTable.abort, hx] at htable
    exact encounters_nothing he hspared htable
  | some x =>
    cases hstate : x.state with
    | waiting =>
      have hleft := (h.table.leaves_dismiss .aborted hx hstate rfl rfl now .aborted he).wants
        [.log ⟨.info, s!"Job {k} aborted before it started"⟩] rfl
      simp only [JobTable.abort, hx, hstate] at htable
      rw [JobTable.log_eq] at htable
      rw [← htable] at hleft
      exact encounters_dismiss he hx hstate (.dismissed now hstate) (.inl rfl) hspared hleft
    | running =>
      cases habortable : x.snapshot.abortable with
      | false =>
        simp only [JobTable.abort, hx, hstate, habortable] at htable
        exact encounters_nothing he hspared htable
      | true =>
        have hleft := (JobTable.asked_comesTo hx he).leaves.wants
          [.log ⟨.info, s!"Abort requested for job {k}"⟩] rfl
        simp only [JobTable.abort, hx, hstate, habortable, if_true] at htable
        rw [JobTable.log_eq] at htable
        rw [← htable] at hleft
        refine ⟨_, _, ?_, hleft⟩
        by_cases hid : id = k
        · subst hid
          cases he.symm.trans hx
          have hself : e.id = id := JobTable.job?_id he
          rw [if_pos rfl]
          exact .asked hstate hunheard (.inl (congrArg some hself.symm))
        · rw [if_neg hid]
          exact hspared
    | success | failed | aborted =>
      simp only [JobTable.abort, hx, hstate] at htable
      exact encounters_nothing he hspared htable

theorem encounters_progressed (t : JobTable β) (now : Nat) (before after : List JobReport)
    (k percent : Nat) (description : Option String) (he : t.job? id = some e) :
    Encounters t (.handle now before (.progressed k percent description) after) id e := by
  have hid : e.id = id := JobTable.job?_id he
  by_cases hthis : id = k ∧ e.state = .running
  · obtain ⟨rfl, hrun⟩ := hthis
    refine ⟨_, _, .reports percent description hrun ?_,
      (JobTable.progress_comesTo percent description he hrun).leaves⟩
    rw [hid]
    rfl
  · refine ⟨[], e, .spared fun hrun r hr => ?_,
      (JobTable.progress_comesTo_other percent description he ?_).leaves⟩
    · cases hr
      intro hsender
      have hk : k = e.id := Option.some.inj hsender
      exact hthis ⟨by omega, hrun⟩
    · by_cases hk : id = k
      · exact .inr fun hrun => hthis ⟨hk, hrun⟩
      · exact .inl hk

theorem Sound.encounters_finished (h : w.Sound) {now k : Nat} {before after : List JobReport}
    {outcome : Except CallError Json} (hmail : w.mail = before ++ .finished k outcome :: after)
    (he : w.table.job? id = some e) :
    Encounters w.table (.handle now before (.finished k outcome) after) id e := by
  have hid : e.id = id := JobTable.job?_id he
  have howes := h.owes.perm (owed_handled hmail).symm
  obtain ⟨⟨lock, x, hx, hrun, -⟩, -⟩ := (howes.running k).mp (by simp [JobReport.finished?])
  by_cases hk : id = k
  · subst hk
    cases he.symm.trans hx
    refine ⟨_, _, .settled now outcome hrun ?_, h.table.leaves_finish he hrun now outcome⟩
    rw [hid]
    rfl
  · rcases h.table.leaves_finish_other hx hrun now outcome he hk with
      hleft | ⟨hwait, hlock, hleft⟩
    · refine ⟨[], e, .spared fun _ r hr => ?_, hleft⟩
      cases hr
      intro hsender
      have hke : k = e.id := Option.some.inj hsender
      omega
    · refine ⟨_, _, .begins now hwait ?_, hleft⟩
      simp only [Act.lock?, Act.job?, JobReport.job, Option.bind_some, JobTable.snapshot?_eq hx]
      exact hlock

theorem Sound.encounters_lockTimedOut (h : w.Sound) (now : Nat) (before after : List JobReport)
    (k : Nat) (he : w.table.job? id = some e) :
    Encounters w.table (.handle now before (.lockTimedOut k) after) id e := by
  let act : Act β := .handle now before (.lockTimedOut k) after
  have hspared : Meets act (act.lock? w.table) e [] e := by
    refine .spared fun _ r hr => ?_
    cases hr
    exact nofun
  have htable : act.onTable w.table = w.table.lockTimedOut now k := rfl
  cases hx : w.table.job? k with
  | none =>
    simp only [JobTable.lockTimedOut, hx] at htable
    exact encounters_nothing he hspared htable
  | some x =>
    by_cases hwait : x.state = .waiting
    · obtain ⟨lock, -, -, hlock, -⟩ := h.table.orderly.release_waiting hx hwait now
      let warned := w.table.wants [.log ⟨.warn, s!"Job {k} timed out waiting for lock {lock}"⟩]
      have hquiet : warned.reveals = w.table.reveals := by
        rw [JobTable.reveals_wants]
        exact List.append_nil _
      have hwarned : JobTable.ComesTo w.table warned id [] e := JobTable.comesTo_same he rfl hquiet
      have hsound : warned.Sound := h.table.wants _
      have hleft := hwarned.then_leaves
        (hsound.leaves_dismiss .failed hx hwait rfl rfl now (.lockTimeout lock) hwarned.job?)
      simp only [JobTable.lockTimedOut, hx, hwait, if_true, hlock, Option.getD_some] at htable
      rw [JobTable.log_eq] at htable
      rw [List.nil_append, ← htable] at hleft
      exact encounters_dismiss he hx hwait (.timedOut now lock hwait hlock) (.inl rfl) hspared hleft
    · simp only [JobTable.lockTimedOut, hx, hwait, if_false] at htable
      exact encounters_nothing he hspared htable

theorem Sound.encounters_stop (h : w.Sound) (now : Nat) (he : w.table.job? id = some e) :
    Encounters w.table (.stop now) id e := by
  have hleft := h.table.leaves_stopAll h.settled now he
  have habout : (Act.stop now : Act β).Concerns e.id := .inr rfl
  cases hstate : e.state with
  | waiting =>
    have hstopped : e.stopped now = e.dismissed now .aborted .aborted := by
      unfold JobEntry.stopped
      rw [hstate]
    rw [if_pos hstate, hstopped] at hleft
    exact ⟨_, _, .dismissed now .aborted .aborted hstate (.dismissed now hstate) habout, hleft⟩
  | running =>
    have hstopped : e.stopped now = e.asked := by
      unfold JobEntry.stopped
      rw [hstate]
    rw [if_neg (by simp [hstate]), hstopped] at hleft
    exact ⟨_, _, .asked hstate rfl habout, hleft⟩
  | success | failed | aborted =>
    have hstopped : e.stopped now = e := by
      unfold JobEntry.stopped
      rw [hstate]
    rw [if_neg (by simp [hstate]), hstopped] at hleft
    exact ⟨_, _, meets_unheard _ e rfl, hleft⟩

/-- All that an act can make of a job of the table. -/
theorem Sound.encounters (h : w.Sound) (hcan : w.Can a) (he : w.table.job? id = some e) :
    Encounters w.table a id e := by
  cases a with
  | submit now job =>
    exact ⟨[], e, meets_unheard _ e rfl, (h.table.comesTo_submit now job he).leaves⟩
  | abort now k => exact h.encounters_abort now k he
  | stop now => exact h.encounters_stop now he
  | handle now before r after =>
    cases r with
    | progressed k percent description =>
      exact encounters_progressed w.table now before after k percent description he
    | finished k outcome => exact h.encounters_finished hcan he
    | lockTimedOut k => exact h.encounters_lockTimedOut now before after k he
  | progress | endBody | timer => exact encounters_nothing he (meets_unheard _ e rfl) rfl

theorem Sound.recounts (h : w.Sound) (a : Act β) :
    Recounts w.table.roll (a.onTable w.table).effects (a.onTable w.table).roll := by
  have hnumbered := h.table.numbered
  have htold : ∃ stops, JobTable.Tells w.table (a.onTable w.table) stops := by
    cases a with
    | submit now job => exact ⟨_, hnumbered.tells_submit now job⟩
    | abort now id => exact ⟨_, hnumbered.tells_abort now id⟩
    | stop now => exact ⟨_, hnumbered.tells_stopAll now⟩
    | handle now before r after => exact ⟨_, hnumbered.tells_report now r⟩
    | progress | endBody | timer => exact ⟨_, hnumbered.tells_refl⟩
  obtain ⟨stops, -, effects, heffects, -, hrecounts⟩ := htold
  rw [h.settled, List.nil_append] at heffects
  rwa [heffects]

theorem Sound.nextId_onTable (h : w.Sound) (hcan : w.Can a) :
    (a.onTable w.table).nextId = w.table.nextId ∨ ∃ now job, a = .submit now job ∧
      w.table.standIn? job = none ∧ (a.onTable w.table).nextId = w.table.nextId + 1 := by
  cases a with
  | submit now job =>
    cases hstand : w.table.standIn? job with
    | some folded =>
      left
      simp only [Act.onTable, JobTable.submit, hstand]
      rfl
    | none =>
      obtain ⟨-, started, hadv⟩ := h.table.submit now hstand
      have hnext := (h.table.orderly.enter now job).nextId
      exact .inr ⟨now, job, rfl, hstand, hadv.nextId.trans hnext⟩
  | abort now id =>
    obtain ⟨-, ended, hadv, -⟩ := h.table.abort now id
    exact .inl hadv.nextId
  | stop now => exact .inl (JobTable.nextId_stopAll w.table now)
  | handle now before r after =>
    left
    cases r with
    | progressed id percent description =>
      exact (JobTable.sameQueues_progress w.table id percent description).nextId
    | finished id outcome =>
      have howes := h.owes.perm (owed_handled hcan).symm
      obtain ⟨⟨lock, x, hx, hrun, -⟩, -⟩ := (howes.running id).mp (by simp [JobReport.finished?])
      obtain ⟨started, -, hadv⟩ := h.table.finish hx hrun now outcome
      exact hadv.nextId
    | lockTimedOut id =>
      obtain ⟨-, ended, hadv, -⟩ := h.table.timeout now id
      exact hadv.nextId
  | progress | endBody | timer => exact .inl rfl

theorem Sound.absent (h : w.Sound) (hcan : w.Can a) (he : w.table.job? id = none) :
    ((a.onTable w.table).job? id = none ∧ shownOf id (a.onTable w.table).effects = []) ∨
      id = w.table.nextId ∧ ∃ now job, a = .submit now job ∧ w.table.standIn? job = none := by
  have hfares := (h.recounts a).fares h.table.numbered.bounded id
  have hnone : w.table.roll.job id = none := by
    change w.table.snapshot? id = none
    rw [JobTable.snapshot?, he, Option.map_none]
  by_cases hlow : id < w.table.nextId
  · obtain ⟨hquiet, hgone⟩ := hfares.of_gone hlow hnone
    exact .inl ⟨JobTable.job?_eq_none_of_snapshot? hgone, hquiet⟩
  · by_cases hhigh : (a.onTable w.table).nextId ≤ id
    · have hbounded := (h.recounts a).narrates.bounded h.table.numbered.bounded
      exact .inl ⟨JobTable.job?_eq_none_of_snapshot? (hbounded.fresh hhigh), hfares.later hhigh⟩
    · rcases h.nextId_onTable hcan with hnext | ⟨now, job, rfl, hstand, hnext⟩
      · omega
      · exact .inr ⟨by omega, now, job, rfl, hstand⟩

/-- What an act makes of the job with a number, if the table has one. -/
inductive Fate (w : Workshop β) (a : Act β) (id : Nat) :
    Option (JobEntry β) → List JobSnapshot → Option (JobEntry β) → Prop where
  | met {e e' : JobEntry β} {shown : List JobSnapshot} (h : Meets a (a.lock? w.table) e shown e') :
      Fate w a id (some e) shown (some e')
  | forgotten {e e' : JobEntry β} {shown : List JobSnapshot}
      (h : Meets a (a.lock? w.table) e shown e') (hend : e'.state.isTerminal = true) :
      Fate w a id (some e) shown none
  | absent : Fate w a id none [] none
  | waits (now : Nat) (job : NewJob β) (hnew : id = w.table.nextId) :
      Fate w a id none [(JobTable.fresh now id job).snapshot] (some (JobTable.fresh now id job))
  | starts (now : Nat) (job : NewJob β) (hnew : id = w.table.nextId) :
      Fate w a id none [(JobTable.fresh now id job).snapshot,
        ((JobTable.fresh now id job).begun now).snapshot]
        (some ((JobTable.fresh now id job).begun now))

theorem Fate.of_ended {entry entry' : Option (JobEntry β)} {shown : List JobSnapshot}
    (h : Fate w a id entry shown entry') (hend : ∀ e, entry = some e → e.state.isTerminal = true)
    (hold : id ≠ w.table.nextId) : shown = [] ∧ (entry' = none ∨ entry' = entry) := by
  cases h with
  | met hmeets =>
    obtain ⟨rfl, rfl⟩ := hmeets.of_ended (hend _ rfl)
    exact ⟨rfl, .inr rfl⟩
  | forgotten hmeets => exact ⟨(hmeets.of_ended (hend _ rfl)).2, .inl rfl⟩
  | absent => exact ⟨rfl, .inl rfl⟩
  | waits _ _ hnew | starts _ _ hnew => exact absurd hnew hold

theorem Sound.fate (h : w.Sound) (hcan : w.Can a) (id : Nat) :
    Fate w a id (w.table.job? id) (shownOf id (a.onTable w.table).effects)
      ((a.onTable w.table).job? id) := by
  cases he : w.table.job? id with
  | some e =>
    obtain ⟨shown, e', hmeets, hleft⟩ := h.encounters hcan he
    rw [hleft.shows.of_settled h.settled]
    rcases hleft.job? with hkept | ⟨hend, hgone⟩
    · rw [hkept]
      exact .met hmeets
    · rw [hgone]
      exact .forgotten hmeets hend
  | none =>
    rcases h.absent hcan he with ⟨hgone, hquiet⟩ | ⟨rfl, now, job, rfl, hstand⟩
    · rw [hgone, hquiet]
      exact .absent
    · have hshown {shown : List JobSnapshot} {e : JobEntry β}
          (hcome : JobTable.ComesTo w.table (w.table.submit now job).1 w.table.nextId shown e) :=
        hcome.shows.of_settled h.settled
      rcases h.table.submit_comesTo now hstand with ⟨lock, -, -, hcome⟩ | ⟨-, hcome⟩
      · rw [Act.onTable, hshown hcome, hcome.job?]
        exact .waits now job rfl
      · rw [Act.onTable, hshown hcome, hcome.job?]
        exact .starts now job rfl

section Course

variable {rule : Workshop β → Act β → Prop} {going : Bool} {acts : List (Act β)}
  {effects : List (JobEffect β)} {w' : Workshop β}

/-- All along a course, also once the jobs were stopped. -/
theorem Course.fate (h : Course rule w going acts effects w') (hw : w.Sound) (hcan : w'.Can a)
    (hopen : going = true ∨ a.sent?.isSome = true) (id : Nat) :
    Fate w' a id (w'.table.job? id) (shownOf id (a.onTable w'.table).effects)
      ((w'.does a).table.job? id) := by
  obtain ⟨haccounted, hsound⟩ := h.accounted hw
  rcases hopen with hgo | hsent
  · have hfate := (hsound hgo).fate hcan id
    rwa [does_table a haccounted.settled]
  · rw [table_sent hsent, onTable_sent hsent, haccounted.settled]
    cases w'.table.job? id with
    | none => exact .absent
    | some e => exact .met (meets_unheard _ e (heard?_sent hsent))

theorem Course.recounts (h : Course rule w going acts effects w') (hw : w.Sound) :
    Recounts w.table.roll effects w'.table.roll := by
  induction h with
  | start => exact .nothing _
  | @next _ _ _ w' h a hcan _ hopen ih =>
    obtain ⟨haccounted, hsound⟩ := h.accounted hw
    rcases hopen with hgo | hsent
    · rw [does_table a haccounted.settled]
      exact ih.append ((hsound hgo).recounts a)
    · rw [table_sent hsent, onTable_sent hsent, haccounted.settled, List.append_nil]
      exact ih

end Course

end Workshop

end Switchboard
