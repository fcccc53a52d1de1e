import Switchboard.Proofs.Hub.Books
import Switchboard.Proofs.Hub.Crew
import Switchboard.Proofs.Jobs.Handover

namespace Switchboard

/-- No submission was answered with another job, no abort was asked for, and nothing was stopped. -/
structure Chronicle.Calm (h : Chronicle) : Prop where
  unasked : ∀ task job, .asked task job ∉ h
  going : .stopped ∉ h
  unfolded : ∀ task job, .answered task job false ∉ h

namespace Chronicle.Calm

variable {h h' : Chronicle}

theorem earlier (hcalm : h'.Calm) (hsub : h ⊆ h') : h.Calm :=
  ⟨fun task job hmem => hcalm.unasked task job (hsub hmem), fun hmem => hcalm.going (hsub hmem),
    fun task job hmem => hcalm.unfolded task job (hsub hmem)⟩

theorem not_blames (hcalm : h.Calm) (job : Nat) : ¬ h.Blames job := by
  rintro (hstopped | ⟨first, ⟨later, task, earlier, rfl, -⟩, -⟩)
  · exact hcalm.going hstopped
  · exact hcalm.unasked task first (List.mem_append_right _ List.mem_cons_self)

end Chronicle.Calm

namespace Hub

variable {s s' s'' : Hub} {x : Exchange} {w w' : Workshop JobBody} {b b' : Begun}
  {d d' d'' : Duties} {h : Chronicle} {k : Nat} {t : Task}

/-- Everybody does what is expected of them, and the books are right. -/
structure Staffed (s : Hub) (x : Exchange) (w : Workshop JobBody) (b : Begun) (d : Duties) :
    Prop where
  crew : s.Crew x b d
  books : s.Books x w
  jobs : b.jobs = w.handedIn
  shared : d.Shared w.atWork

/-- Whoever was there has the aim that they had. -/
structure SameAims (s s' : Hub) (d d' : Duties) : Prop where
  aims : ∀ k < s.nextNumber, d'.aim k = d.aim k
  number : s.nextNumber ≤ s'.nextNumber

theorem sameAims_of_le (d : Duties) (h : s.nextNumber ≤ s'.nextNumber) : SameAims s s' d d :=
  ⟨fun _ _ => rfl, h⟩

theorem SameAims.trans (h : SameAims s s' d d') (h' : SameAims s' s'' d' d'') :
    SameAims s s'' d d'' :=
  ⟨fun k hk => (h'.aims k (Nat.lt_of_lt_of_le hk h.number)).trans (h.aims k hk),
    Nat.le_trans h.number h'.number⟩

theorem nextNumber_of_bare (h : s'.bare = s.bare) : s'.nextNumber = s.nextNumber := by
  have hnumber := congrArg Hub.nextNumber h
  exact hnumber

theorem letters_of_bare (h : s'.bare = s.bare) : s'.letters = s.letters := by
  have hletters := congrArg Hub.letters h
  exact hletters

/-- The hub has come to a state in which everybody does what is expected of them, and whoever was
there has the aim that they had. -/
def WorksOn (s s' : Hub) (x : Exchange) (d : Duties) : Prop :=
  ∃ w b d', SameAims s s' d d' ∧ s'.Staffed x w b d'

theorem ended_imprint (s : Hub) (task : Nat) (action : Action)
    (next : action.Reply → Routine Outcome) : (s.imprint task action next).ended = s.ended := by
  cases action with
  | spawn work => exact ended_spawn s _ none
  | ask r | report r =>
    simp only [imprint]
    split <;> rfl
  | _ => rfl

theorem ended_run_one (s : Hub) (task : Nat) (action : Action)
    (next : action.Reply → Routine Outcome) :
    (run 1 s task (.act action next)).ended = s.ended := by
  have hstep := ended_step s task action next
  rw [run]
  split
  next s' routine heq =>
    rw [heq] at hstep
    exact hstep
  next s' heq =>
    rw [heq] at hstep
    exact hstep

theorem Staffed.of_bare (hs : s.Staffed x w b d) (hbare : s'.bare = s.bare)
    (hended : s'.ended = s.ended) : s'.Staffed x w b d where
  crew := hs.crew.of_bare hbare hended
  books := hs.books.same (sameKeeping_of_bare hbare) (by rw [letters_of_bare hbare])
  jobs := hs.jobs
  shared := hs.shared

theorem WorksOn.of_bare (h : WorksOn s s' x d) (hbare : s''.bare = s'.bare)
    (hended : s''.ended = s'.ended) : WorksOn s s'' x d := by
  obtain ⟨w, b, d', haims, hs⟩ := h
  have hnumber := nextNumber_of_bare hbare
  exact ⟨w, b, d', ⟨haims.aims, hnumber.symm ▸ haims.number⟩,
    hs.of_bare hbare hended⟩

namespace Staffed

theorem worksOn (hs : s'.Staffed x w b d) (h : s.nextNumber ≤ s'.nextNumber) : WorksOn s s' x d :=
  ⟨w, b, d, sameAims_of_le d h, hs⟩

theorem jobEvents_with (hs : s.Staffed x w b d) (jobEvents : Broadcaster Event) :
    Staffed { s with jobEvents } x w b d where
  crew := hs.crew.same rfl rfl rfl (Nat.le_refl _)
  books := ⟨hs.books.kept, hs.books.table, hs.books.mail, hs.books.exhibits, hs.books.ran,
    hs.books.ends⟩
  jobs := hs.jobs
  shared := hs.shared

theorem proceed (hs : s.Staffed x w b d) {routine : Routine Outcome} {owed : Option Nat}
    (howed : d.owes k = owed) (h : Heeds x (d.aim k) b owed routine) :
    (s.goOn k routine).Staffed x w b d where
  crew := by
    rw [← d.assign_same k, howed]
    exact hs.crew.goOn fun _ _ _ => h
  books := hs.books.same ⟨rfl, rfl, rfl, rfl⟩ rfl
  jobs := hs.jobs
  shared := hs.shared

section Actions

variable {action : Action} {next : action.Reply → Routine Outcome} {goal : Outcome → Prop}
  {owed : Option Nat}

theorem after_simple (hs : s.Staffed x w b d) (hsimple : action.IsSimple)
    (hh : Heeds x goal b owed (.act action next)) (k : Nat) :
    Heeds x goal b owed (s.after k action next) := by
  have hreply : ∀ reply, (∀ branch, b.Told ⟨action, reply⟩ branch → Happens x branch) →
      Heeds x goal b owed (next reply) := by
    intro reply hhappens
    have hsame : b.after ⟨action, reply⟩ = b := by
      cases action with
      | spawn work | ask r => exact hsimple.elim
      | _ => rfl
    have hcommon : action.IsCommon := by
      cases action with
      | «become» work | report r => exact hsimple.elim
      | _ => trivial
    have hpanic : ∀ p, action ≠ .panic p := by
      rintro p rfl
      exact hsimple
    have hanswers : Answers ⟨action, reply⟩ := by
      cases action with
      | ask r => exact hsimple.elim
      | _ => trivial
    rw [← hsame]
    exact hh.next hcommon hpanic hanswers hhappens
  cases action with
  | join task =>
    cases hended : s.ended.lookup task with
    | none =>
      simp only [after, step, hended]
      exact hh
    | some outcome =>
      simp only [after, step, hended]
      refine hreply outcome fun branch htold => ?_
      cases htold with
      | thread _ hmem =>
        obtain ⟨before, later, heq, -⟩ := List.lookup_eq_some_iff.mp hended
        have hdone := hs.crew.ended (task, outcome) (by rw [heq]; simp)
        exact (hs.crew.threads _ _ _ _ hmem).2 outcome hdone
  | awaitJob id deadline =>
    cases hending : s.board.ending? id with
    | some ending =>
      simp only [after, step, hending]
      refine hreply ending fun branch htold => ?_
      cases htold with
      | job _ hmem => exact hs.books.told (hs.jobs ▸ hmem) hending
    | none =>
      cases deadline with
      | none =>
        simp only [after, step, hending]
        exact hh
      | some time =>
        simp only [after, step, hending]
        split
        next => exact hreply _ fun branch htold => by cases htold
        next => exact hh
  | newToken _ | cancel _ | call _ _ _ | launch _ _ | fire _ _ | ask _ | report _ | spawn _
  | «become» _ | panic _ => exact hsimple.elim
  | _ =>
    have hafter : s.after k _ next = .act _ next ∨ ∃ reply, s.after k _ next = next reply :=
      Hub.after_simple hsimple s k
    rcases hafter with hstays | ⟨reply, hgoes⟩
    · exact hstays ▸ hh
    · exact hgoes ▸ hreply reply fun branch htold => by cases htold

theorem spawn (hs : s.Staffed x w b d) {routine : Routine Outcome} {aim : Outcome → Prop}
    (h : Heeds x aim b none routine) :
    (s.spawn routine).2.Staffed x w b (d.assign s.nextNumber aim none) where
  crew := hs.crew.spawn h none
  books := hs.books.same (sameKeeping_spawn s routine none) (by
    rw [letters_of_bare (bare_spawn s routine none)])
  jobs := hs.jobs
  shared := hs.shared.unowed

theorem nextNumber_spawn (s : Hub) (routine : Routine Outcome) :
    (s.spawn routine).2.nextNumber = s.nextNumber + 1 :=
  nextNumber_of_bare (bare_spawn s routine none)

theorem spawn_work (hs : s.Staffed x w b d) (hx : x.registry.Common) (work : Work) :
    ∃ aim, (s.spawn (s.exchange.work work)).2.Staffed x w (b.after ⟨.spawn work, s.nextNumber⟩)
      (d.assign s.nextNumber aim none) := by
  rw [hs.crew.exchange]
  cases work with
  | thread name args context =>
    refine ⟨fun outcome => Happens x (.thread name args context outcome), ?_⟩
    have hnew := hs.spawn (Heeds.thread hx name args context b)
    refine { hnew with
      crew := hnew.crew.begin (b.within_after _) fun task name' args' context' hmem => ?_ }
    refine (List.mem_cons.mp hmem).symm.imp_right fun heq => ?_
    cases heq
    refine ⟨?_, fun outcome hhappens => ?_⟩
    · rw [nextNumber_spawn]
      exact Nat.lt_succ_self _
    · simpa using hhappens
  | guard job caller done | rounds subscription name source | forward subscription outlet =>
    exact ⟨fun _ => True, hs.spawn
      (.of_modest (fun _ => trivial) (Exchange.modest_work hx _) b none)⟩

theorem act_report {r : JobReport} {next : Unit → Routine Outcome} (hs : s.Staffed x w b d)
    (hh : Heeds x (d.aim k) b (d.owes k) (.act (.report r) next)) :
    WorksOn s (Hub.goOn { s with letters := s.letters ++ [.report r] } k (next ())) x d := by
  have hcrew : Crew { s with letters := s.letters ++ [.report r] } x b d :=
    hs.crew.same rfl rfl rfl (Nat.le_refl _)
  have hsent : ∀ w', Books { s with letters := s.letters ++ [.report r] } x w' →
      w'.handedIn = w.handedIn → w'.atWork = w.atWork →
      Heeds x (d.aim k) b (d.owes k) (next ()) →
      WorksOn s (Hub.goOn { s with letters := s.letters ++ [.report r] } k (next ())) x d := by
    intro w' hbooks hjobs hwork hnext
    have hstaffed : Staffed { s with letters := s.letters ++ [.report r] } x w' b d :=
      ⟨hcrew, hbooks, hjobs ▸ hs.jobs, hwork ▸ hs.shared⟩
    exact (hstaffed.proceed rfl hnext).worksOn (Nat.le_refl _)
  cases r with
  | progressed id percent description | lockTimedOut id =>
    exact hsent _ (hs.books.send rfl) rfl rfl
      (hh.next trivial (by simp) trivial fun _ htold => by cases htold)
  | finished id result =>
    generalize howed : d.owes k = owed at hh
    cases hh with
    | act hcommon _ _ => exact hcommon.elim
    | report hran hnext =>
      have hown : Ran x { jobs := w.handedIn } id result :=
        hran.mono (hs.jobs ▸ List.Subset.refl _)
      have hbooks := hs.books.endBody (hs.shared.atWork _ _ howed) hown
      refine ⟨w.endBody id result, b, d.assign k (d.aim k) none,
        ⟨fun j _ => d.aim_assign_same k none j, Nat.le_refl _⟩, ?_, ?_, hs.jobs, ?_⟩
      · exact hcrew.goOn fun _ _ _ => hnext
      · exact hbooks.same ⟨rfl, rfl, rfl, rfl⟩ rfl
      · exact hs.shared.reported howed

theorem act_spawn {work : Work} {next : Nat → Routine Outcome} (hs : s.Staffed x w b d)
    (hx : x.registry.Common) (hk : k < s.nextNumber)
    (hh : Heeds x (d.aim k) b (d.owes k) (.act (.spawn work) next)) :
    WorksOn s ((s.spawn (s.exchange.work work)).2.goOn k (next s.nextNumber)) x d := by
  obtain ⟨aim, hspawned⟩ := hs.spawn_work hx work
  have hkeeps := d.keeps_assign s.nextNumber aim none
  have hnumber := nextNumber_spawn s (s.exchange.work work)
  obtain ⟨haim, howes⟩ := hkeeps k hk
  refine ⟨w, _, _, ⟨fun j hj => (hkeeps j hj).1, ?_⟩, hspawned.proceed howes ?_⟩
  · exact Nat.le_of_lt (Nat.lt_of_lt_of_eq (Nat.lt_succ_self _) hnumber.symm)
  · rw [haim]
    exact hh.next trivial (by simp) trivial fun _ htold => by cases htold

theorem act_ask {r : JobRequest} {next : Except CallError r.Reply → Routine Outcome}
    (hs : s.Staffed x w b d) (hh : Heeds x (d.aim k) b (d.owes k) (.act (.ask r) next)) :
    WorksOn s (Hub.goOn { s with letters := s.letters ++ [.request r k next] } k
      (.act (.ask r) next)) x d := by
  have hasked : Staffed { s with letters := s.letters ++ [.request r k next] } x w b d :=
    { hs with
      crew := hs.crew.same rfl rfl rfl (Nat.le_refl _)
      books := hs.books.same ⟨rfl, rfl, rfl, rfl⟩ (by
        rw [List.filterMap_append]
        exact List.append_nil _) }
  exact (hasked.proceed rfl hh).worksOn (Nat.le_refl _)

theorem act_action (hs : s.Staffed x w b d) (hx : x.registry.Common) (hk : k < s.nextNumber)
    (hh : Heeds x (d.aim k) b (d.owes k) (.act action next)) :
    WorksOn s ((s.imprint k action next).goOn k (s.after k action next)) x d := by
  have hexchange := hs.crew.exchange
  have hstays : ∀ {routine : Routine Outcome}, Heeds x (d.aim k) b (d.owes k) routine →
      WorksOn s (s.goOn k routine) x d := fun hnext =>
    (hs.proceed rfl hnext).worksOn (Nat.le_refl _)
  cases action with
  | newToken parent =>
    have hnumbered : Staffed { s with nextNumber := s.nextNumber + 1 } x w b d :=
      { hs with
        crew := hs.crew.same rfl rfl rfl (Nat.le_succ _)
        books := hs.books.same ⟨rfl, rfl, rfl, rfl⟩ rfl }
    exact (hnumbered.proceed rfl
      (hh.next trivial (by simp) trivial fun _ htold => by cases htold)).worksOn (Nat.le_succ _)
  | cancel token =>
    have hfired : Staffed { s with fired := token :: s.fired } x w b d :=
      { hs with
        crew := hs.crew.same rfl rfl rfl (Nat.le_refl _)
        books := hs.books.same ⟨rfl, rfl, rfl, rfl⟩ rfl }
    exact (hfired.proceed rfl
      (hh.next trivial (by simp) trivial fun _ htold => by cases htold)).worksOn (Nat.le_refl _)
  | call name args caller => exact hstays (by simpa [after, step, hexchange] using hh.call hx)
  | launch name args => exact hstays (by simpa [after, step, hexchange] using hh.launch hx)
  | fire event payload => exact hstays (by simpa [after, step, hexchange] using hh.fire hx)
  | «become» work =>
    have hmodest : (s.after k (.become work) next).Modest := by
      rw [after, step, hexchange]
      exact Exchange.modest_work hx work
    exact hstays (.of_modest hh.of_become hmodest b _)
  | panic p => exact hstays (.done hh.of_panic)
  | ask r =>
    have himprint : s.imprint k (.ask r) next =
        { s with letters := s.letters ++ [.request r k next] } := if_pos hs.books.kept
    have hafter : s.after k (.ask r) next = .act (.ask r) next := by
      simp only [after, step, hs.books.kept, if_true, Option.getD_none]
    rw [himprint, hafter]
    exact hs.act_ask hh
  | report r =>
    have himprint : s.imprint k (.report r) next =
        { s with letters := s.letters ++ [.report r] } := if_pos hs.books.kept
    rw [himprint]
    exact hs.act_report hh
  | spawn work => exact hs.act_spawn hx hk hh
  | _ =>
    refine hstays (hs.after_simple ?_ hh k)
    trivial

end Actions

theorem finish (hs : s.Staffed x w b d) (hk : k < s.nextNumber) {outcome : Outcome}
    (h : d.aim k outcome) : (s.finishTask k outcome).Staffed x w b d := by
  have hbare := bare_finishTask s k outcome
  have hdropped : (s.dropTask k).Books x w := hs.books.same ⟨rfl, rfl, rfl, rfl⟩ rfl
  exact { hs with
    crew := hs.crew.finish hk h
    books := hdropped.same (sameKeeping_of_bare hbare)
      (congrArg (List.filterMap Letter.report?) (letters_of_bare hbare)) }

theorem act (hs : s.Staffed x w b d) (hx : x.registry.Common) (k : Nat) :
    WorksOn s (s.act k) x d := by
  have hidle : WorksOn s s x d := hs.worksOn (Nat.le_refl _)
  cases ht : s.task? k with
  | none =>
    simp only [Hub.act, ht]
    exact hidle
  | some t =>
    cases hasking : s.asking k with
    | true =>
      simp only [Hub.act, ht, hasking, if_true]
      exact hidle
    | false =>
      have hmem := List.mem_of_find?_eq_some ht
      have hid : t.id = k := by simpa using List.find?_some ht
      subst hid
      have hk := hs.crew.numbered.tasks t hmem
      have hh := hs.crew.heeds t hmem
      simp only [Hub.act, ht, hasking, Bool.false_eq_true, if_false]
      cases hroutine : t.routine with
      | done outcome =>
        rw [hroutine] at hh
        have hbare := bare_finishTask s t.id outcome
        exact (hs.finish hk hh.of_done).worksOn (Nat.le_of_eq (nextNumber_of_bare hbare).symm)
      | act action next =>
        rw [hroutine] at hh
        refine (hs.act_action hx hk hh).of_bare (bare_run_one s t.id action next) ?_
        exact (ended_run_one s t.id action next).trans (ended_imprint s t.id action next).symm

theorem resume (hs : s.Staffed x w b d) {routine : Routine Outcome} {owed : Option Nat}
    (howed : d.owes k = owed) (h : Heeds x (d.aim k) b owed routine) :
    (s.resume k routine).Staffed x w b d :=
  (hs.proceed howed h).of_bare (bare_resume s k routine) (ended_resume s k routine)

theorem adopt (hc : s.Crew x b d) (hx : x.registry.Common) (hd : d.Shared w.atWork)
    {table : JobTable JobBody} (hb : (s.adopt table).Books x w')
    (hgrows : b.jobs ⊆ w'.handedIn) (hwork : w'.atWork = w.atWork ++ table.starts.map Prod.fst)
    (hstarted : table.starts ⊆ w'.started) :
    ∃ d', d.Keeps s.nextNumber d' ∧ s.nextNumber ≤ (s.adopt table).nextNumber ∧
      (s.adopt table).Staffed x w' { b with jobs := w'.handedIn } d' := by
  have hmore : s.Crew x { b with jobs := w'.handedIn } d :=
    hc.begin ⟨List.Subset.refl _, hgrows⟩ fun _ _ _ _ hmem => .inl hmem
  have hbodies : table.starts ⊆ w'.handedIn := fun p hp => by
    obtain ⟨job, hjob, hbody⟩ := hb.exhibits.shop.ledger.known p (hstarted hp)
    exact List.mem_map.mpr ⟨(p.1, job), hjob, Prod.ext rfl hbody⟩
  obtain ⟨d', hkeeps, hshared, hcrew, hnumber⟩ :=
    hmore.adopt hx hd hbodies (hwork ▸ hb.exhibits.shop.nodup_atWork)
  exact ⟨d', hkeeps, hnumber, hcrew, hb, rfl, hwork ▸ hshared⟩

theorem report (hs : s.Staffed x w b d) (hx : x.registry.Common) :
    WorksOn s (s.does .report) x d := by
  cases hfind : s.letters.find? Letter.isReport with
  | none =>
    simp only [does, handleFirst, hfind]
    exact hs.worksOn (Nat.le_refl _)
  | some letter =>
    rw [does_report hfind]
    cases letter with
    | request r task next =>
      exact absurd (List.find?_some hfind) (by simp [Letter.isReport, Letter.isRequest])
    | report r =>
      let opened : Hub := { s with letters := s.letters.eraseP Letter.isReport }
      have hhandled : opened.handle (.report r) = opened.adopt (s.jobs.report s.now r) :=
        if_pos hs.books.kept
      have hopened : opened.Crew x b d := hs.crew.same rfl rfl rfl (Nat.le_refl _)
      have hbooks := hs.books.report hfind
      obtain ⟨d', hkeeps, hnumber, hstaffed⟩ := adopt (s := opened) hopened hx hs.shared hbooks
        (hs.jobs ▸ List.Subset.refl _) (by rw [← hs.books.table]; rfl)
        (by rw [← hs.books.table]; exact List.subset_append_right _ _)
      rw [hhandled]
      exact ⟨_, _, d', ⟨fun k hk => (hkeeps k hk).1, hnumber⟩, hstaffed⟩

theorem submit (hs : s.Staffed x w b d) (hx : x.registry.Common) {job : NewJob JobBody}
    (hnew : s.jobs.standIn? job = none) (hk : k < s.nextNumber)
    {next : Except CallError Nat → Routine Outcome}
    (hh : Heeds x (d.aim k) (b.after ⟨.ask (.submit job), .ok s.jobs.nextId⟩) (d.owes k)
      (next (.ok s.jobs.nextId))) :
    WorksOn s (s.answer (.submit job) k next) x d := by
  have htaken : (w.submit s.now job).handedIn = w.handedIn ++ [(s.jobs.nextId, job.body)] := by
    rw [Workshop.handedIn, Workshop.taken_submit (hs.books.table ▸ hnew), List.map_append,
      hs.books.table]
    rfl
  have hgrows : (b.after ⟨.ask (.submit job), .ok s.jobs.nextId⟩).jobs ⊆
      (w.submit s.now job).handedIn := by
    rw [htaken]
    refine List.cons_subset.mpr ⟨by simp, ?_⟩
    rw [hs.jobs]
    exact List.subset_append_left _ _
  obtain ⟨d', hkeeps, hnumber, hstaffed⟩ := adopt hs.crew hx hs.shared (hs.books.submit hnew)
    (List.Subset.trans (List.subset_cons_self _ _) hgrows) (by rw [← hs.books.table]; rfl)
    (by rw [← hs.books.table]; exact List.subset_append_right _ _)
  have hid : (s.jobs.submit s.now job).2 = s.jobs.nextId := by
    simp only [JobTable.submit, hnew]
    split <;> rfl
  have hanswer : s.answer (.submit job) k next =
      (s.adopt (s.jobs.submit s.now job).1).resume k (next (.ok s.jobs.nextId)) := by
    rw [← hid]
    rfl
  obtain ⟨haim, howes⟩ := hkeeps k hk
  rw [hanswer]
  refine ⟨_, _, d', ⟨fun k hk => (hkeeps k hk).1, ?_⟩, hstaffed.resume howes ?_⟩
  · rw [nextNumber_of_bare (bare_resume _ _ _)]
    exact hnumber
  · rw [haim]
    exact hh.mono ⟨List.Subset.refl _, hgrows⟩

theorem request (hs : s.Staffed x w b d) (hsound : s.Sound h) (hx : x.registry.Common)
    (hcalm : Chronicle.Calm (s.heard .request ++ h)) (hpresent : ∀ k, .dropped k ∉ h) :
    WorksOn s (s.does .request) x d := by
  cases hfind : s.letters.find? Letter.isRequest with
  | none =>
    simp only [does, handleFirst, hfind]
    exact hs.worksOn (Nat.le_refl _)
  | some letter =>
    cases letter with
    | report r => exact absurd (List.find?_some hfind) (by simp [Letter.isRequest])
    | request r task next =>
      obtain ⟨hk, dones, stage, ha⟩ := hsound
      have hp := ha.letters r task next (List.mem_of_find?_eq_some hfind)
      obtain ⟨t, ht, rfl, hroutine⟩ := hp.waits.resolve_right fun hd => hpresent task hd.1
      have hh := hs.crew.heeds t ht
      rw [hroutine] at hh
      have hnext : ∀ reply, Heeds x (d.aim t.id) (b.after ⟨.ask r, .ok reply⟩) (d.owes t.id)
          (next (.ok reply)) := fun reply =>
        hh.next trivial (by simp) trivial fun _ htold => by cases htold
      let opened : Hub := { s with letters := s.letters.eraseP Letter.isRequest }
      have hopened : opened.Staffed x w b d :=
        { hs with
          crew := hs.crew.same rfl rfl rfl (Nat.le_refl _)
          books := hs.books.same ⟨rfl, rfl, rfl, rfl⟩ (reports_eraseP s.letters) }
      have hheard : s.heard .request = s.heardFor t.id r := by simp only [heard, hfind]
      have hlooked : ∀ (s' : Hub) (reply : r.Reply), s'.Staffed x w b d → s'.nextNumber =
          s.nextNumber → b.after ⟨.ask r, .ok reply⟩ = b →
          WorksOn s (s'.resume t.id (next (.ok reply))) x d := by
        intro s' reply hs' hnumber hsame
        refine (hs'.resume rfl (hsame ▸ hnext reply)).worksOn ?_
        rw [nextNumber_of_bare (bare_resume _ _ _)]
        exact Nat.le_of_eq hnumber.symm
      rw [hheard] at hcalm
      rw [does_request hfind, handle_request (s := opened) hs.books.kept]
      cases r with
      | get id => exact hlooked opened _ hopened rfl rfl
      | watch id => exact hlooked opened _ hopened rfl rfl
      | list => exact hlooked opened _ hopened rfl rfl
      | subscribe => exact hlooked _ _ (hopened.jobEvents_with _) rfl rfl
      | abort job =>
        have hblamed := hp.abort job rfl
        exact absurd hblamed ((hcalm.earlier (List.subset_append_right _ _)).not_blames job)
      | shutdown =>
        refine absurd ?_ hcalm.going
        simp [heardFor, hs.books.kept]
      | submit job =>
        have hnew : s.jobs.standIn? job = none := by
          cases hstand : s.jobs.standIn? job with
          | none => rfl
          | some other =>
            refine absurd ?_ (hcalm.unfolded t.id (s.jobs.submit s.now job).2)
            simp [heardFor, hs.books.kept, hstand]
        obtain ⟨w', b', d', haims, hanswered⟩ :=
          hopened.submit hx hnew (hs.crew.numbered.tasks t ht) (hnext _)
        exact ⟨w', b', d', ⟨haims.aims, haims.number⟩, hanswered⟩

end Staffed

/-- Nobody is asked to stop, so no task turns to its fallback. -/
theorem Sound.does_fall (hsound : s.Sound h) (hcalm : h.Calm) (k : Nat) :
    s.does (.fall k) = s ∧ s.heard (.fall k) = [] := by
  cases hfound : (s.task? k).bind (·.fallback) with
  | none => exact ⟨by simp only [Hub.does, fallBack, hfound], by simp only [heard, hfound]⟩
  | some fallback =>
    obtain ⟨hk, dones, stage, ha⟩ := hsound
    obtain ⟨t, ht, hf⟩ := Option.bind_eq_some_iff.mp hfound
    obtain ⟨id, rfl⟩ := ha.fallbacks t (List.mem_of_find?_eq_some ht) fallback hf
    have hgoing : s.isCancelled (.job id) = false := by
      by_contra hcancelled
      have hfired : .job id ∈ s.fired := by simpa [isCancelled, Token.isCancelled] using hcancelled
      rcases ha.fired _ hfired with ⟨job, -, hblamed⟩ | ⟨n, job, heq, -⟩
      · exact hcalm.not_blames job hblamed
      · cases heq
    refine ⟨?_, ?_⟩
    · simp only [Hub.does, fallBack, hfound, hgoing, Bool.false_eq_true, if_false]
    · simp only [heard, hfound, hgoing, Bool.false_eq_true, if_false]

theorem Sound.undropped (hsound : s.Sound h) (hcalm : h.Calm) (hpresent : ∀ k, .dropped k ∉ h)
    (stroke : Stroke) (k : Nat) : .dropped k ∉ s.heard stroke ++ h := by
  intro hmem
  refine (List.mem_append.mp hmem).elim (fun hnew => ?_) (hpresent k)
  cases stroke with
  | fall task =>
    rw [(hsound.does_fall hcalm task).2] at hnew
    cases hnew
  | act task =>
    simp only [heard, heardOf] at hnew
    repeat' split at hnew
    all_goals simp at hnew
  | request =>
    simp only [heard, heardFor] at hnew
    repeat' split at hnew
    all_goals simp at hnew
  | begin routine | report | around other | take receiver | drop receiver => cases hnew

theorem subset_retell (s : Hub) (h : Chronicle) (strokes : List Stroke) :
    h ⊆ s.retell h strokes := by
  induction strokes generalizing s h with
  | nil => exact List.Subset.refl h
  | cons stroke rest ih =>
    exact List.Subset.trans (List.subset_append_right _ _) (ih (s.does stroke) _)

theorem retell_append (s : Hub) (h : Chronicle) (strokes more : List Stroke) :
    s.retell h (strokes ++ more) = (s.plays strokes).retell (s.retell h strokes) more := by
  induction strokes generalizing s h with
  | nil => rfl
  | cons stroke rest ih => exact ih (s.does stroke) _

namespace Staffed

theorem begin (hs : s.Staffed x w b d) {routine : Routine Outcome} {aim : Outcome → Prop}
    (h : Heeds x aim b none routine) :
    (s.does (.begin routine)).Staffed x w b (d.assign s.nextNumber aim none) := hs.spawn h

/-- Whatever happens, everybody does what is expected of them. -/
theorem does (hs : s.Staffed x w b d) (hsound : s.Sound h) (hx : x.registry.Common)
    (stroke : Stroke) (hcalm : Chronicle.Calm (s.heard stroke ++ h))
    (hpresent : ∀ k, .dropped k ∉ h)
    (hclient : ∀ routine, stroke = .begin routine → routine.Modest) :
    WorksOn s (s.does stroke) x d := by
  cases stroke with
  | begin routine =>
    have hnew : (s.does (.begin routine)).Staffed x w b
        (d.assign s.nextNumber (fun _ => True) none) :=
      hs.begin (.of_modest (fun _ => trivial) (hclient routine rfl) b none)
    refine ⟨w, b, _, ⟨fun k hk => (d.keeps_assign s.nextNumber _ none k hk).1, ?_⟩, hnew⟩
    exact Nat.le_of_lt (Nat.lt_of_lt_of_eq (Nat.lt_succ_self _) (nextNumber_spawn s routine).symm)
  | act task => exact hs.act hx task
  | fall task =>
    rw [(hsound.does_fall (hcalm.earlier (List.subset_append_right _ _)) task).1]
    exact hs.worksOn (Nat.le_refl _)
  | request => exact hs.request hsound hx hcalm hpresent
  | report => exact hs.report hx
  | around other => exact (hs.of_bare (bare_around s other) rfl).worksOn (Nat.le_refl _)
  | take receiver | drop receiver => exact (hs.jobEvents_with _).worksOn (Nat.le_refl _)

theorem plays (hs : s.Staffed x w b d) (hsound : s.Sound h) (hx : x.registry.Common)
    (strokes : List Stroke) (hcalm : (s.retell h strokes).Calm) (hpresent : ∀ k, .dropped k ∉ h)
    (hclients : ∀ routine, .begin routine ∈ strokes →
      routine.Lawful [] .idle ∧ routine.Modest) :
    WorksOn s (s.plays strokes) x d ∧ ∀ k, .dropped k ∉ s.retell h strokes := by
  induction strokes generalizing s h w b d with
  | nil => exact ⟨hs.worksOn (Nat.le_refl _), hpresent⟩
  | cons stroke rest ih =>
    have hfirst : Chronicle.Calm (s.heard stroke ++ h) :=
      hcalm.earlier (subset_retell (s.does stroke) _ rest)
    have hclient : ∀ routine, stroke = .begin routine →
        routine.Lawful [] .idle ∧ routine.Modest := by
      rintro routine rfl
      exact hclients routine List.mem_cons_self
    obtain ⟨w', b', d', haims, hs'⟩ := hs.does hsound hx stroke hfirst hpresent
      fun routine heq => (hclient routine heq).2
    have hsound' := hsound.does fun routine heq => (hclient routine heq).1
    obtain ⟨⟨w'', b'', d'', haims', hs''⟩, hlast⟩ := ih hs' hsound' hcalm
      (hsound.undropped (hfirst.earlier (List.subset_append_right _ _)) hpresent stroke)
      fun routine hmem => hclients routine (List.mem_cons_of_mem _ hmem)
    exact ⟨⟨w'', b'', d'', haims.trans haims', hs''⟩, hlast⟩

end Staffed

theorem staffed_build (b : Builder) : b.build.Staffed b.build.exchange
    (.opened b.settings.maxRetainedJobs) {} ⟨fun _ _ => True, fun _ => none⟩ where
  crew :=
    { exchange := rfl
      numbered := ⟨fun _ ht => (List.not_mem_nil ht).elim, fun _ he => (List.not_mem_nil he).elim⟩
      heeds := fun _ ht => (List.not_mem_nil ht).elim
      ended := fun _ _ => trivial
      threads := fun _ _ _ _ hmem => (List.not_mem_nil hmem).elim }
  books :=
    { kept := rfl
      table := rfl
      mail := rfl
      exhibits := .opened _
      ran := fun _ _ hmem => (List.not_mem_nil hmem).elim
      ends := fun _ _ _ _ hmem => (List.not_mem_nil hmem).elim }
  jobs := rfl
  shared := ⟨nofun, nofun⟩

/-- In a calm run, everybody does what is expected of them, and a client may expect of a task that
they begin whatever it leads to. -/
theorem staffed_of_calm {builder : Builder} (hlawful : builder.registry.Lawful)
    (hcommon : builder.registry.Common) {before after : List Stroke} {routine : Routine Outcome}
    {aim : Outcome → Prop}
    (hclients : ∀ routine', .begin routine' ∈ before ++ .begin routine :: after →
      routine'.Lawful [] .idle ∧ routine'.Modest)
    (hcalm : (builder.build.chronicle (before ++ .begin routine :: after)).Calm)
    (haim : ∀ b, Heeds builder.build.exchange aim b none routine) :
    ∃ w b d, d.aim (builder.build.plays before).nextNumber = aim ∧
      (builder.build.plays (before ++ .begin routine :: after)).Staffed builder.build.exchange w b
        d := by
  have hfirst : ∀ routine', .begin routine' ∈ before →
      routine'.Lawful [] .idle ∧ routine'.Modest := fun routine' hmem =>
    hclients routine' (List.mem_append_left _ hmem)
  rw [chronicle, retell_append] at hcalm
  have hcalm' := hcalm.earlier (subset_retell (builder.build.plays before) _ _)
  have hsound := sound hlawful fun routine' hmem => (hfirst routine' hmem).1
  obtain ⟨⟨w, b, d, -, hs⟩, hpresent⟩ := (staffed_build builder).plays (sound_build hlawful)
    hcommon before hcalm' (fun _ hmem => (List.not_mem_nil hmem)) hfirst
  have hroutine := hclients routine (List.mem_append_right _ List.mem_cons_self)
  have hbegun : ((builder.build.plays before).does (.begin routine)).Sound _ :=
    hsound.does fun routine' heq => by
      cases heq
      exact hroutine.1
  obtain ⟨⟨w', b', d', haims, hs'⟩, -⟩ := (hs.begin (haim b)).plays hbegun hcommon after hcalm
    (hsound.undropped hcalm' hpresent (.begin routine))
    fun routine' hmem => hclients routine'
      (List.mem_append_right _ (List.mem_cons_of_mem _ hmem))
  have hnew : (builder.build.plays before).nextNumber <
      ((builder.build.plays before).does (.begin routine)).nextNumber :=
    Nat.lt_of_lt_of_eq (Nat.lt_succ_self _)
      (Staffed.nextNumber_spawn (builder.build.plays before) routine).symm
  refine ⟨w', b', d', ?_, ?_⟩
  · rw [haims.aims _ hnew, Duties.aim_assign_self]
  · rw [plays_append]
    exact hs'

end Hub

end Switchboard
