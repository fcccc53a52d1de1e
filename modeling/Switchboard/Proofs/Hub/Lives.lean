import Switchboard.Proofs.Hub.Readers
import Switchboard.Proofs.Jobs.Lives

namespace Switchboard

namespace JobSnapshot

variable {s s' : JobSnapshot}

theorem SameJob.refl (s : JobSnapshot) : s.SameJob s := by constructor <;> rfl

theorem SameJob.symm (h : s.SameJob s') : s'.SameJob s where
  id := h.id.symm
  method := h.method.symm
  arguments := h.arguments.symm
  lock := h.lock.symm
  description := h.description.symm
  abortable := h.abortable.symm
  transient := h.transient.symm
  timeCreated := h.timeCreated.symm

instance : Trans SameJob SameJob SameJob where
  trans := SameJob.trans

instance : Std.Symm SameJob where
  symm _ _ := SameJob.symm

/-- A life is that of one job. -/
theorem sameJob_of_isChain {life : List JobSnapshot} (h : life.IsChain Becomes) :
    ∀ s ∈ life, ∀ s' ∈ life, s.SameJob s' := by
  have hchain : life.IsChain SameJob := h.imp fun _ _ hb => hb.toSameJob
  have hpairs : life.Pairwise SameJob := List.isChain_iff_pairwise.mp hchain
  intro s hs s' hs'
  exact hpairs.forall_of_forall (fun s _ => SameJob.refl s) hs hs'

end JobSnapshot

namespace Hub

variable {s : Hub} {id : Nat}

/-- The snapshots that are shown of a job in a run, in order. -/
def life (s : Hub) (id : Nat) (strokes : List Stroke) : List JobSnapshot :=
  shownOf id (s.wanted strokes)

theorem wanted_append (s : Hub) (strokes more : List Stroke) :
    s.wanted (strokes ++ more) = s.wanted strokes ++ (s.plays strokes).wanted more := by
  induction strokes generalizing s with
  | nil => rfl
  | cons stroke rest ih =>
    rw [List.cons_append, wanted, ih, wanted, List.append_assoc]
    rfl

theorem life_append (s : Hub) (id : Nat) (strokes more : List Stroke) :
    s.life id (strokes ++ more) = s.life id strokes ++ (s.plays strokes).life id more := by
  rw [life, wanted_append, shownOf_append]
  rfl

theorem Tidy.plays (hs : s.Tidy) (strokes : List Stroke) : (s.plays strokes).Tidy :=
  (hs.told_wanted strokes).tidy

theorem Tidy.fares (hs : s.Tidy) (strokes : List Stroke) (id : Nat) :
    Fares s.jobs.roll (s.plays strokes).jobs.roll id (s.life id strokes) :=
  (hs.told_wanted strokes).recounts.fares hs.jobs.bounded id

theorem Tidy.lt_of_takesIn (hs : s.Tidy) {stroke : Stroke} {job : NewJob JobBody}
    (h : (id, job) ∈ s.takesIn stroke) : id < (s.does stroke).jobs.nextId := by
  obtain ⟨-, x, hx, -⟩ := hs.of_takesIn h
  exact ((hs.told stroke).tidy.jobs.bounded id x hx).2

theorem Tidy.le_of_takenIn (hs : s.Tidy) {strokes : List Stroke} {job : NewJob JobBody}
    (h : (id, job) ∈ s.takenIn strokes) : s.jobs.nextId ≤ id := by
  obtain ⟨before, stroke, after, -, hmem⟩ := mem_takenIn h
  have hbefore := hs.told_wanted before
  have hle : s.jobs.nextId ≤ (s.plays before).jobs.nextId := hbefore.recounts.narrates.next_le
  exact Nat.le_trans hle (hbefore.tidy.of_takesIn hmem).1

theorem pairwise_takesIn (s : Hub) (stroke : Stroke) :
    ((s.takesIn stroke).map Prod.fst).Pairwise (· < ·) := by
  unfold takesIn
  split
  next =>
    split
    next => split <;> simp
    next => simp
  next => simp

theorem Tidy.takenIn_increases (hs : s.Tidy) (strokes : List Stroke) :
    ((s.takenIn strokes).map Prod.fst).Pairwise (· < ·) := by
  induction strokes generalizing s with
  | nil => exact .nil
  | cons stroke rest ih =>
    have hs' := (hs.told stroke).tidy
    rw [takenIn, List.map_append, List.pairwise_append]
    refine ⟨s.pairwise_takesIn stroke, ih hs', fun n hn m hm => ?_⟩
    obtain ⟨⟨id, job⟩, hid, rfl⟩ := List.mem_map.mp hn
    obtain ⟨⟨later, job'⟩, hlater, rfl⟩ := List.mem_map.mp hm
    have hlt := hs.lt_of_takesIn hid
    have hle := hs'.le_of_takenIn hlater
    exact Nat.lt_of_lt_of_le hlt hle

/-- What is known of a job in a run, from the submission on. -/
structure Biography (s : Hub) (strokes : List Stroke) (id : Nat) : Prop where
  begins : ∀ x ∈ (s.life id strokes).head?, x.state = .waiting
  /-- From snapshot to snapshot it moves on to a state that can follow, or makes progress while it
  runs, and what was settled at its submission stays. -/
  moves : (s.life id strokes).IsChain JobSnapshot.Becomes
  of : ∀ job, (id, job) ∈ s.takenIn strokes → s.life id strokes ≠ [] ∧
    ∃ now, ∀ x ∈ s.life id strokes, (JobTable.fresh now id job).snapshot.SameJob x
  now : (s.plays strokes).jobs.snapshot? id = none ∨
    (s.plays strokes).jobs.snapshot? id = (s.life id strokes).getLast?
  settled : ∀ before after, strokes = before ++ after → ∀ x,
    (s.plays before).jobs.snapshot? id = some x → x.state.isTerminal = true →
      (s.plays before).life id after = [] ∧
      ((s.plays strokes).jobs.snapshot? id = none ∨ (s.plays strokes).jobs.snapshot? id = some x)
  gone : ∀ before after, strokes = before ++ after → s.life id before ≠ [] →
    (s.plays before).jobs.snapshot? id = none →
      (s.plays before).life id after = [] ∧ (s.plays strokes).jobs.snapshot? id = none

theorem Tidy.known_of_life (hs : s.Tidy) {strokes : List Stroke}
    (h : s.life id strokes ≠ []) : id < (s.plays strokes).jobs.nextId := by
  by_contra hle
  exact h ((hs.fares strokes id).later (Nat.le_of_not_lt hle))

theorem Tidy.life_of_takenIn (hs : s.Tidy) {strokes : List Stroke} {job : NewJob JobBody}
    (hnew : s.jobs.snapshot? id = none) (h : (id, job) ∈ s.takenIn strokes) :
    s.life id strokes ≠ [] ∧
      ∃ now, ∀ x ∈ s.life id strokes, (JobTable.fresh now id job).snapshot.SameJob x := by
  have hmoves := (hs.fares strokes id).moves
  rw [show s.jobs.roll.job id = none from hnew, Option.toList_none, List.nil_append] at hmoves
  obtain ⟨before, stroke, after, rfl, hmem⟩ := mem_takenIn h
  have hsplit : before ++ stroke :: after = (before ++ [stroke]) ++ after := by simp
  have hplays : s.plays (before ++ [stroke]) = (s.plays before).does stroke :=
    plays_append s before [stroke]
  -- the snapshot that the table has right after the submission has been shown
  obtain ⟨-, x, hx, hsame⟩ := (hs.plays before).of_takesIn hmem
  rw [← hplays] at hx
  have hlast : (s.life id (before ++ [stroke])).getLast? = some x := by
    have hnow := (hs.fares (before ++ [stroke]) id).now
    rw [show s.jobs.roll.job id = none from hnew, Option.toList_none, List.nil_append] at hnow
    rcases hnow with hnone | hlast
    · exact absurd (hnone.symm.trans hx) (by simp)
    · exact hlast.symm.trans hx
  have hshown : x ∈ s.life id (before ++ stroke :: after) := by
    rw [hsplit, life_append]
    exact List.mem_append_left _ (List.mem_of_getLast? hlast)
  refine ⟨List.ne_nil_of_mem hshown, (s.plays before).now, fun y hy => ?_⟩
  exact hsame.trans (JobSnapshot.sameJob_of_isChain hmoves x hshown y hy)

theorem Tidy.biography (hs : s.Tidy) (hnew : s.jobs.snapshot? id = none)
    (strokes : List Stroke) : s.Biography strokes id := by
  have hfares := hs.fares strokes id
  have hmoves := hfares.moves
  have hnow := hfares.now
  rw [show s.jobs.roll.job id = none from hnew, Option.toList_none, List.nil_append]
    at hmoves hnow
  refine ⟨fun x hx => (hfares.begins hnew x hx).2, hmoves,
    fun job hmem => hs.life_of_takenIn hnew hmem, hnow, ?_, ?_⟩
  · rintro before after rfl x hx hend
    have hafter := ((hs.plays before).fares after id).of_ended hx hend
    rw [← plays_append] at hafter
    exact hafter
  · rintro before after rfl hlife hnone
    have hknown := hs.known_of_life hlife
    have hafter := ((hs.plays before).fares after id).of_gone hknown hnone
    rw [← plays_append] at hafter
    exact hafter

/-- In any run, jobs are numbered in turn, and each of them only moves forward: it waits at first,
its states follow each other as they may, it stays the same job, and nothing changes once it has
ended, until the table forgets it for good. -/
theorem jobs_only_move_forward (b : Builder) (strokes : List Stroke) :
    ((b.build.takenIn strokes).map Prod.fst).Pairwise (· < ·) ∧
      ∀ id, b.build.Biography strokes id :=
  ⟨(tidy_build b).takenIn_increases strokes, fun _ => (tidy_build b).biography rfl strokes⟩

end Hub

end Switchboard
