import Switchboard.Proofs.Jobs.Aborts
import Switchboard.Proofs.Jobs.Partings

namespace Switchboard

/-- Where somebody is who waits for the end of a job. -/
inductive Vigil where
  | looks
  | sleeps (stirred : Bool)
  | looksBack
  | ends (ending : Except CallError JobSnapshot)

namespace Vigil

/-- What is shown of the job does not let anybody sleep on. -/
def stir {β : Type} (id : Nat) : Vigil → JobEffect β → Vigil
  | sleeps stirred, .reveal s => sleeps (stirred || s.id == id)
  | v, _ => v

def settle (last : Option JobSnapshot) : Vigil :=
  match last with
  | some s => ends (if s.state.isTerminal then .ok s else .error .jobManagerUnavailable)
  | none => ends (.error .jobManagerUnavailable)

def move (b : JobBoard) (id : Nat) : Vigil → Vigil
  | looks =>
    match b.snapshot? id with
    | some s => if s.state.isTerminal then ends (.ok s) else sleeps false
    | none => sleeps false
  | sleeps true => looks
  | sleeps false => if b.isOver id then looksBack else sleeps false
  | looksBack => settle (b.snapshot? id)
  | ends ending => ends ending

/-- How many moves it takes at most to end, once the job has ended or the table is closed. -/
def patience : Vigil → Nat
  | sleeps true => 4
  | looks => 3
  | sleeps false => 2
  | looksBack => 1
  | ends _ => 0

theorem ends_of_patience {v : Vigil} (h : v.patience = 0) : ∃ ending, v = ends ending := by
  cases v with
  | ends ending => exact ⟨ending, rfl⟩
  | sleeps stirred => cases stirred <;> cases h
  | _ => cases h

end Vigil

/-- The workshop, and what was shown of its jobs. -/
structure Gallery (β : Type) where
  shop : Workshop β
  board : JobBoard := {}
  unseen : List (JobEffect β) := []
  stopped : Bool := false

namespace Gallery

variable {β : Type} {g g' g'' : Gallery β} {id : Nat} {seen : List (JobEffect β)}
  {shown more : List JobSnapshot} {v v' : Vigil} {n m : Nat}

/-- The table takes its next request or report once all that it wanted was seen. -/
structure Ready (g : Gallery β) : Prop where
  going : g.stopped = false
  seen : g.unseen = []

/-- A step, and the effects that are seen in it. -/
inductive Step : Gallery β → List (JobEffect β) → Gallery β → Prop where
  | submit (g : Gallery β) (now : Nat) (job : NewJob β) (h : g.Ready) :
      Step g [] { g with
        shop := g.shop.submit now job
        unseen := (g.shop.table.submit now job).1.effects }
  | abort (g : Gallery β) (now id : Nat) (h : g.Ready) :
      Step g [] { g with
        shop := g.shop.abort now id
        unseen := (g.shop.table.abort now id).1.effects }
  | handle (g : Gallery β) (now : Nat) (before after : List JobReport) (r : JobReport)
      (h : g.Ready) (hmail : g.shop.mail = before ++ r :: after) :
      Step g [] { g with
        shop := g.shop.handle now r (before ++ after)
        unseen := (g.shop.table.report now r).effects }
  | aside (g : Gallery β) (shop : Workshop β) (hstep : g.shop.Step shop)
      (htable : shop.table = g.shop.table) : Step g [] { g with shop }
  | stop (g : Gallery β) (now : Nat) (h : g.Ready) :
      Step g [] { g with
        shop := g.shop.adopt (g.shop.table.stopAll now).1
        unseen := (g.shop.table.stopAll now).1.effects
        stopped := true }
  | see (g : Gallery β) (e : JobEffect β) (rest : List (JobEffect β))
      (h : g.unseen = e :: rest) : Step g [e] { g with board := g.board.see e, unseen := rest }
  | leave (g : Gallery β) (h : g.unseen = []) :
      Step g [] { g with board := g.board.close, stopped := true }

def opened (maxRetained : Nat) : Gallery β := { shop := .opened maxRetained }

def Reachable (maxRetained : Nat) (g : Gallery β) : Prop :=
  Relation.ReflTransGen (fun g g' => ∃ seen, Step g seen g') (opened maxRetained) g

/-- Somebody waits for a job while the gallery goes on: how often the vigil moves, and what is shown
of the job on the way. -/
inductive Passes (id : Nat) :
    Gallery β → Vigil → Nat → List JobSnapshot → Gallery β → Vigil → Prop where
  | refl (g : Gallery β) (v : Vigil) : Passes id g v 0 [] g v
  | goesOn {g g' g'' : Gallery β} {v v' : Vigil} {n : Nat} {shown : List JobSnapshot}
      {seen : List (JobEffect β)} (h : Passes id g v n shown g' v') (hstep : Step g' seen g'') :
      Passes id g v n (shown ++ shownOf id seen) g'' (seen.foldl (Vigil.stir id) v')
  | moves {g g' : Gallery β} {v v' : Vigil} {n : Nat} {shown : List JobSnapshot}
      (h : Passes id g v n shown g' v') :
      Passes id g v (n + 1) shown g' (v'.move g'.board id)

def settled (g : Gallery β) : Gallery β :=
  { g with board := g.unseen.foldl JobBoard.see g.board, unseen := [] }

/-- Nothing keeps the table from getting through with what it wants. -/
theorem Passes.settles (h : Passes id g v n shown g' v') :
    Passes id g v n (shown ++ shownOf id g'.unseen) g'.settled
      (g'.unseen.foldl (Vigil.stir id) v') := by
  obtain ⟨shop, board, unseen, stopped⟩ := g'
  induction unseen generalizing board v' shown with
  | nil =>
    rw [shownOf_nil, List.append_nil]
    exact h
  | cons e rest ih =>
    have hrest := ih (board.see e) (h.goesOn (.see _ e rest rfl))
    rwa [List.append_assoc, ← shownOf_append] at hrest

structure Turns (g g' : Gallery β) : Prop where
  ready : g.Ready
  board : g'.board = g.board
  numbered : g'.shop.table.Numbered
  told : Recounts g.shop.table.roll g'.unseen g'.shop.table.roll
  gone : ∀ id s, g.shop.table.snapshot? id = some s → g'.shop.table.snapshot? id = none →
    Concluded (s :: shownOf id g'.unseen)
  conceals : ∀ id s before after, g.shop.table.snapshot? id = some s →
    g'.unseen = before ++ .conceal id :: after → Concluded (s :: shownOf id before)

structure Rests (g g' : Gallery β) : Prop where
  table : g'.shop.table = g.shop.table
  unseen : g'.unseen = g.unseen
  stopped : g.stopped = true → g'.stopped = true
  board : g'.board = g.board ∨ g'.board = g.board.close ∧ g'.stopped = true ∧ g'.unseen = []

structure Sound (g : Gallery β) : Prop where
  numbered : g.shop.table.Numbered
  going : g.stopped = false → g.shop.Sound
  agrees : (g.unseen.foldl JobBoard.see g.board).Agrees g.shop.table.roll
  left : g.board.closed = true → g.stopped = true ∧ g.unseen = []

theorem sound_opened (maxRetained : Nat) : (opened maxRetained : Gallery β).Sound where
  numbered := ⟨by simp [opened, Workshop.opened, JobTable.ids], by simp [opened, Workshop.opened],
    by simp [opened, Workshop.opened]⟩
  going _ := Workshop.sound_opened maxRetained
  agrees := ⟨fun _ _ hs => (by cases hs), fun _ hid => (by cases hid)⟩
  left hclosed := by cases hclosed

theorem turns_of_parts {t : JobTable β} {shop : Workshop β} {stopped : Bool} (hg : g.Sound)
    (hready : g.Ready) (htable : shop.table = { t with effects := [] })
    (hparts : JobTable.Parts g.shop.table t) :
    Turns g { g with shop, unseen := t.effects, stopped } := by
  obtain ⟨htold, hgone, hconceals⟩ :=
    hparts.before_conceal hg.numbered (hg.going hready.going).settled
  refine ⟨hready, rfl, ?_, ?_, ?_, hconceals⟩
  · rw [htable]
    exact ⟨hparts.numbered.jobs, hparts.numbered.finished, hparts.numbered.queued⟩
  · rw [htable]
    exact htold
  · rw [htable]
    exact hgone

theorem parts_report {w : Workshop β} {before after : List JobReport} {r : JobReport}
    (h : w.Sound) (ht : w.table.Numbered) (hmail : w.mail = before ++ r :: after) (now : Nat) :
    JobTable.Parts w.table (w.table.report now r) := by
  cases r with
  | progressed id percent description => exact h.table.parts_progress ht id percent description
  | lockTimedOut id => exact h.table.parts_lockTimedOut ht now id
  | finished id outcome =>
    have howes := h.owes.perm (Workshop.owed_handled hmail).symm
    obtain ⟨⟨lock, e, he, hrun, -⟩, -⟩ := (howes.running id).mp (by simp [JobReport.finished?])
    exact h.table.parts_finish ht he hrun now outcome

theorem Step.parts (h : g.Step seen g') (hg : g.Sound) :
    (seen = [] ∧ (g.Turns g' ∨ g.Rests g')) ∨
      ∃ e rest, seen = [e] ∧ g.unseen = e :: rest ∧
        g' = { g with board := g.board.see e, unseen := rest } := by
  cases h with
  | submit now job h =>
    have hparts := (hg.going h.going).table.parts_submit hg.numbered now job
    exact .inl ⟨rfl, .inl (turns_of_parts hg h rfl hparts)⟩
  | abort now id h =>
    have hparts := (hg.going h.going).table.parts_abort hg.numbered now id
    exact .inl ⟨rfl, .inl (turns_of_parts hg h rfl hparts)⟩
  | handle now before after r h hmail =>
    have hparts := parts_report (hg.going h.going) hg.numbered hmail now
    exact .inl ⟨rfl, .inl (turns_of_parts hg h rfl hparts)⟩
  | stop now h =>
    have hparts := (hg.going h.going).table.parts_stopAll hg.numbered now
    exact .inl ⟨rfl, .inl (turns_of_parts hg h rfl hparts)⟩
  | aside shop _ htable => exact .inl ⟨rfl, .inr ⟨htable, rfl, id, .inl rfl⟩⟩
  | see e rest h => exact .inr ⟨e, rest, rfl, h, rfl⟩
  | leave h =>
    exact .inl ⟨rfl, .inr ⟨rfl, rfl, fun _ => rfl, .inr ⟨rfl, rfl, h⟩⟩⟩

theorem Step.shop (h : g.Step seen g') (hg : g.Sound) (hgoing : g'.stopped = false) :
    g'.shop.Sound := by
  cases h with
  | submit now job h => exact ((hg.going h.going).submit now job).1
  | abort now id h => exact ((hg.going h.going).abort now id).1
  | handle now before after r h hmail => exact ((hg.going h.going).handle hmail now).1
  | aside shop hstep _ => exact ((hg.going hgoing).step hstep).1
  | see e rest h => exact hg.going hgoing
  | stop | leave => cases hgoing

theorem Sound.step (hg : g.Sound) (h : g.Step seen g') : g'.Sound := by
  have hshop := fun hgoing => h.shop hg hgoing
  have hagrees := hg.agrees
  rcases h.parts hg with ⟨-, hturns | hrests⟩ | ⟨e, rest, -, hunseen, rfl⟩
  · refine ⟨hturns.numbered, hshop, ?_, fun hclosed => ?_⟩
    · rw [hturns.ready.seen, List.foldl_nil] at hagrees
      rw [hturns.board]
      exact hagrees.recounts hg.numbered.bounded hturns.told
    · rw [hturns.board] at hclosed
      obtain ⟨hstopped, -⟩ := hg.left hclosed
      rw [hturns.ready.going] at hstopped
      cases hstopped
  · refine ⟨hrests.table ▸ hg.numbered, hshop, ?_, fun hclosed => ?_⟩
    · rw [hrests.table, hrests.unseen]
      rcases hrests.board with hboard | ⟨hboard, -, hnil⟩
      · rwa [hboard]
      · rw [← hrests.unseen, hnil, List.foldl_nil] at hagrees
        rw [hboard, ← hrests.unseen, hnil]
        exact ⟨hagrees.shown, hagrees.concealed⟩
    · rcases hrests.board with hboard | ⟨-, hstopped, hnil⟩
      · obtain ⟨hstopped, hnil⟩ := hg.left (hboard ▸ hclosed)
        exact ⟨hrests.stopped hstopped, hrests.unseen.trans hnil⟩
      · exact ⟨hstopped, hnil⟩
  · refine ⟨hg.numbered, hshop, ?_, fun hclosed => ?_⟩
    · rwa [hunseen, List.foldl_cons] at hagrees
    · rw [JobBoard.closed_see] at hclosed
      cases hunseen.symm.trans (hg.left hclosed).2

theorem sound_of_reachable {maxRetained : Nat} (h : Reachable maxRetained g) : g.Sound := by
  induction h with
  | refl => exact sound_opened maxRetained
  | tail _ hstep ih =>
    obtain ⟨seen, hstep⟩ := hstep
    exact ih.step hstep

/-- What is known of a job of which `shown` was shown since somebody began to watch it. -/
structure Follows (id : Nat) (g : Gallery β) (shown : List JobSnapshot) : Prop where
  known : id < g.shop.table.nextId
  moves : (shown ++ shownOf id g.unseen).IsChain JobSnapshot.Becomes
  board : ∃ s, shown.getLast? = some s ∧ g.board.snapshot? id = some s
  table : g.shop.table.snapshot? id = (shown ++ shownOf id g.unseen).getLast? ∨
    g.shop.table.snapshot? id = none ∧ Concluded (shown ++ shownOf id g.unseen)
  concealed : id ∈ g.board.concealed → Concluded shown
  conceals : ∀ before after, g.unseen = before ++ .conceal id :: after →
    Concluded (shown ++ shownOf id before)

theorem Sound.follows (hg : g.Sound) (hready : g.Ready) {s : JobSnapshot}
    (hs : g.shop.table.snapshot? id = some s) : Follows id g [s] := by
  have hagrees := hg.agrees
  rw [hready.seen, List.foldl_nil] at hagrees
  refine ⟨(hg.numbered.bounded id s hs).2, ?_, ⟨s, rfl, hagrees.shown id s hs⟩, .inl ?_,
    fun hid => ?_, fun before after hsplit => ?_⟩
  · rw [hready.seen]
    exact List.isChain_singleton _
  · rw [hready.seen]
    exact hs
  · cases hs.symm.trans (hagrees.concealed id hid).1
  · rw [hready.seen] at hsplit
    simp at hsplit

theorem Follows.turns (hf : Follows id g shown) (hg : g.Sound) (h : g.Turns g') :
    Follows id g' shown := by
  obtain ⟨last, hlast, hboard⟩ := hf.board
  have hnext := Nat.lt_of_lt_of_le hf.known h.told.narrates.next_le
  have hfares := h.told.fares hg.numbered.bounded id
  have htable := hf.table
  have hmoves := hf.moves
  rw [h.ready.seen, shownOf_nil, List.append_nil] at htable hmoves
  rcases htable with hs | ⟨hnone, hconcluded⟩
  · have hs : g.shop.table.roll.job id = some last := hs.trans hlast
    have hchain := hfares.moves
    have hnow := hfares.now
    rw [hs] at hchain hnow
    refine ⟨hnext, ?_, ⟨last, hlast, h.board ▸ hboard⟩, ?_, fun hid => ?_,
      fun before after hsplit => ?_⟩
    · refine List.isChain_append.mpr ⟨hmoves, (List.isChain_append.mp hchain).2.1,
        fun x hx y hy => ?_⟩
      cases Option.some.inj (hlast.symm.trans hx)
      exact (List.isChain_append.mp hchain).2.2 last rfl y hy
    · rcases hnow with hnone | hnow
      · exact .inr ⟨hnone, (concluded_append_iff hlast).mpr (h.gone id last hs hnone)⟩
      · exact .inl (hnow.trans (getLast?_append_of_last hlast _).symm)
    · exact hf.concealed (h.board ▸ hid)
    · exact (concluded_append_iff hlast).mpr (h.conceals id last before after hs hsplit)
  · obtain ⟨hnil, hgone⟩ := hfares.of_gone hf.known hnone
    refine ⟨hnext, ?_, ⟨last, hlast, h.board ▸ hboard⟩, .inr ⟨hgone, ?_⟩, fun _ => hconcluded,
      fun before after hsplit => ?_⟩
    · rwa [hnil, List.append_nil]
    · rwa [hnil, List.append_nil]
    · rw [hsplit, shownOf_append, List.append_eq_nil_iff] at hnil
      rwa [hnil.1, List.append_nil]

theorem Follows.rests (hf : Follows id g shown) (h : g.Rests g') : Follows id g' shown := by
  obtain ⟨hknown, hmoves, hboard, htable, hconcealed, hconceals⟩ := hf
  have hsame : g'.board.latest = g.board.latest ∧ g'.board.concealed = g.board.concealed := by
    rcases h.board with hboard | ⟨hboard, -⟩ <;> rw [hboard] <;> exact ⟨rfl, rfl⟩
  refine ⟨?_, ?_, ?_, ?_, ?_, ?_⟩
  · rwa [h.table]
  · rwa [h.unseen]
  · rwa [JobBoard.snapshot?, hsame.1]
  · rwa [h.table, h.unseen]
  · rwa [hsame.2]
  · rwa [h.unseen]

theorem Follows.sees (hf : Follows id g shown) {e : JobEffect β} {rest : List (JobEffect β)}
    (h : g.unseen = e :: rest) :
    Follows id { g with board := g.board.see e, unseen := rest } (shown ++ shownOf id [e]) := by
  obtain ⟨last, hlast, hboard⟩ := hf.board
  have hsplit : shown ++ shownOf id [e] ++ shownOf id rest = shown ++ shownOf id g.unseen := by
    rw [h, List.append_assoc, ← shownOf_append, List.singleton_append]
  have hmoves := hf.moves
  rw [← hsplit] at hmoves
  refine ⟨hf.known, hsplit ▸ hf.moves, ?_, hsplit ▸ hf.table, fun hid => ?_,
    fun before after heq => ?_⟩
  · cases e with
    | reveal s =>
      simp only [JobBoard.see, JobBoard.snapshot?_reveal]
      have hshown := shownOf_reveal (β := β) id s []
      rw [List.map_nil] at hshown
      by_cases heq : s.id = id
      · rw [hshown, if_pos heq]
        exact ⟨s, by simp, if_pos heq.symm⟩
      · rw [hshown, if_neg heq, List.append_nil]
        exact ⟨last, hlast, (if_neg (Ne.symm heq)).trans hboard⟩
    | _ => exact ⟨last, by rw [show shownOf id [_] = [] from rfl, List.append_nil, hlast], hboard⟩
  · have hbefore : Concluded shown := by
      cases e with
      | conceal j =>
        rcases List.mem_cons.mp hid with rfl | hid
        · simpa [shownOf] using hf.conceals [] rest h
        · exact hf.concealed hid
      | _ => exact hf.concealed hid
    rw [hbefore.nothing_more (List.isChain_append.mp hmoves).1, List.append_nil]
    exact hbefore
  · have hconcluded := hf.conceals (e :: before) after (h.trans (congrArg (e :: ·) heq))
    rw [List.append_assoc, ← shownOf_append, List.singleton_append]
    exact hconcluded

theorem Follows.step (hf : Follows id g shown) (hg : g.Sound) (h : g.Step seen g') :
    Follows id g' (shown ++ shownOf id seen) := by
  rcases h.parts hg with ⟨rfl, hturns | hrests⟩ | ⟨e, rest, rfl, hunseen, rfl⟩
  · rw [shownOf_nil, List.append_nil]
    exact hf.turns hg hturns
  · rw [shownOf_nil, List.append_nil]
    exact hf.rests hrests
  · exact hf.sees hunseen

/-- Where a vigil is agrees with what was shown of the job. -/
def Attends (id : Nat) (g : Gallery β) (shown : List JobSnapshot) : Vigil → Prop
  | .looks | .sleeps true => True
  | .sleeps false => ¬ Concluded shown
  | .looksBack => g.board.isOver id = true
  | .ends (.ok s) => shown.getLast? = some s ∧ s.state.isTerminal = true
  | .ends (.error e) => e = .jobManagerUnavailable ∧ g.board.closed = true ∧ ¬ Concluded shown

theorem Attends.later (ha : Attends id g shown v)
    (hover : g.board.isOver id = true → g'.board.isOver id = true)
    (hclosed : g.board.closed = true → g'.board.closed = true) : Attends id g' shown v := by
  cases v with
  | looks => trivial
  | sleeps stirred => cases stirred <;> exact ha
  | looksBack => exact hover ha
  | ends ending =>
    cases ending with
    | ok s => exact ha
    | error e => exact ⟨ha.1, hclosed ha.2.1, ha.2.2⟩

theorem stir_of_hidden {e : JobEffect β} (h : shownOf id [e] = []) (v : Vigil) :
    v.stir id e = v := by
  cases e with
  | reveal s =>
    have hne : s.id ≠ id := fun heq => by simp [shownOf, JobEffect.revealed?, heq] at h
    cases v <;> simp [Vigil.stir, hne]
  | _ => cases v <;> rfl

theorem stir_of_shown {e : JobEffect β} (h : shownOf id [e] ≠ []) (stirred : Bool) :
    (Vigil.sleeps stirred).stir id e = .sleeps true := by
  cases e with
  | reveal s =>
    have heq : s.id = id := by
      by_contra hne
      exact h (by simp [shownOf, JobEffect.revealed?, hne])
    simp [Vigil.stir, heq]
  | _ => exact absurd rfl h

theorem isOver_see {b : JobBoard} (e : JobEffect β) (h : b.isOver id = true) :
    (b.see e).isOver id = true := by
  cases e with
  | conceal j =>
    simp only [JobBoard.see, JobBoard.conceal, JobBoard.isOver, Bool.or_eq_true,
      List.contains_cons] at h ⊢
    tauto
  | _ => exact h

theorem Step.isOver (h : g.Step seen g') (hg : g.Sound) (hover : g.board.isOver id = true) :
    g'.board.isOver id = true := by
  rcases h.parts hg with ⟨-, hturns | hrests⟩ | ⟨e, rest, -, -, rfl⟩
  · rwa [hturns.board]
  · rcases hrests.board with hboard | ⟨hboard, -⟩ <;> rw [hboard]
    · exact hover
    · rfl
  · exact isOver_see e hover

theorem Step.closed (h : g.Step seen g') (hg : g.Sound) (hclosed : g.board.closed = true) :
    g'.board.closed = true := by
  rcases h.parts hg with ⟨-, hturns | hrests⟩ | ⟨e, rest, -, -, rfl⟩
  · rwa [hturns.board]
  · rcases hrests.board with hboard | ⟨hboard, -⟩ <;> rw [hboard]
    · exact hclosed
    · rfl
  · exact (JobBoard.closed_see _ _).trans hclosed

theorem Follows.hidden {e : JobEffect β} {rest : List (JobEffect β)} (hf : Follows id g shown)
    (hunseen : g.unseen = e :: rest) (hconcluded : Concluded shown) : shownOf id [e] = [] := by
  have hnone := hconcluded.nothing_more hf.moves
  rw [hunseen, ← List.singleton_append, shownOf_append, List.append_eq_nil_iff] at hnone
  exact hnone.1

theorem Attends.goesOn (ha : Attends id g shown v) (hf : Follows id g shown) (hg : g.Sound)
    (h : g.Step seen g') :
    Attends id g' (shown ++ shownOf id seen) (seen.foldl (Vigil.stir id) v) := by
  have hover : g.board.isOver id = true → g'.board.isOver id = true := h.isOver hg
  rcases h.parts hg with ⟨rfl, -⟩ | ⟨e, rest, rfl, hunseen, rfl⟩
  · rw [shownOf_nil, List.append_nil]
    exact ha.later hover (h.closed hg)
  · rw [List.foldl_cons, List.foldl_nil]
    by_cases hhidden : shownOf id [e] = []
    · rw [hhidden, List.append_nil, stir_of_hidden hhidden]
      exact ha.later hover (h.closed hg)
    · have hopen : ¬ Concluded shown := fun hconcluded => hhidden (hf.hidden hunseen hconcluded)
      cases v with
      | looks => cases e <;> trivial
      | sleeps stirred =>
        rw [stir_of_shown hhidden]
        trivial
      | looksBack =>
        have hstays : Vigil.looksBack.stir id e = .looksBack := by cases e <;> rfl
        rw [hstays]
        exact hover ha
      | ends ending =>
        cases ending with
        | ok s => exact absurd ⟨s, ha⟩ hopen
        | error _ => cases hunseen.symm.trans (hg.left ha.2.1).2

theorem Attends.moves (ha : Attends id g shown v) (hf : Follows id g shown) :
    Attends id g shown (v.move g.board id) := by
  obtain ⟨last, hlast, hboard⟩ := hf.board
  have hopen : last.state.isTerminal = false → ¬ Concluded shown := by
    rintro hnot ⟨s, hs, hend⟩
    cases Option.some.inj (hlast.symm.trans hs)
    rw [hnot] at hend
    cases hend
  cases v with
  | looks =>
    simp only [Vigil.move, hboard]
    cases hend : last.state.isTerminal with
    | true => exact ⟨hlast, hend⟩
    | false => exact hopen hend
  | sleeps stirred =>
    cases stirred with
    | true => trivial
    | false =>
      simp only [Vigil.move]
      split
      next hover => exact hover
      next => exact ha
  | looksBack =>
    simp only [Vigil.move, Vigil.settle, hboard]
    cases hend : last.state.isTerminal with
    | true => exact ⟨hlast, hend⟩
    | false =>
      have hgone : id ∉ g.board.concealed := fun hid => hopen hend (hf.concealed hid)
      refine ⟨rfl, ?_, hopen hend⟩
      simpa [Attends, JobBoard.isOver, hgone] using ha
  | ends ending => exact ha

structure Keeps (id : Nat) (g : Gallery β) (shown : List JobSnapshot) (v : Vigil) : Prop where
  sound : g.Sound
  follows : Follows id g shown
  attends : Attends id g shown v

theorem Passes.keeps (h : Passes id g v n more g' v') (hk : Keeps id g shown v) :
    Keeps id g' (shown ++ more) v' := by
  induction h with
  | refl => rwa [List.append_nil]
  | goesOn _ hstep ih =>
    obtain ⟨hg, hf, ha⟩ := ih hk
    rw [← List.append_assoc]
    exact ⟨hg.step hstep, hf.step hg hstep, ha.goesOn hf hg hstep⟩
  | moves _ ih =>
    obtain ⟨hg, hf, ha⟩ := ih hk
    exact ⟨hg, hf, ha.moves hf⟩

theorem Passes.closed (h : Passes id g v n more g' v') (hk : Keeps id g shown v)
    (hclosed : g.board.closed = true) : g'.board.closed = true := by
  induction h with
  | refl => exact hclosed
  | goesOn hpass hstep ih => exact hstep.closed (hpass.keeps hk).sound (ih hk)
  | moves _ ih => exact ih hk

theorem Keeps.patience_goesOn (hk : Keeps id g shown v) (h : g.Step seen g')
    (hdone : Concluded shown ∨ g.board.closed = true) : seen.foldl (Vigil.stir id) v = v := by
  rcases h.parts hk.sound with ⟨rfl, -⟩ | ⟨e, rest, rfl, hunseen, rfl⟩
  · rfl
  · rcases hdone with hconcluded | hclosed
    · exact stir_of_hidden (hk.follows.hidden hunseen hconcluded) v
    · cases hunseen.symm.trans (hk.sound.left hclosed).2

theorem Keeps.patience_moves (hk : Keeps id g shown v)
    (hdone : Concluded shown ∨ g.board.closed = true) :
    (v.move g.board id).patience ≤ v.patience - 1 := by
  obtain ⟨last, -, hboard⟩ := hk.follows.board
  cases v with
  | looks =>
    simp only [Vigil.move, hboard]
    split <;> simp [Vigil.patience]
  | sleeps stirred =>
    cases stirred with
    | true => simp [Vigil.move, Vigil.patience]
    | false =>
      have hover : g.board.isOver id = true := by
        rcases hdone with hconcluded | hclosed
        · exact absurd hconcluded hk.attends
        · simp [JobBoard.isOver, hclosed]
      simp [Vigil.move, hover, Vigil.patience]
  | looksBack => simp [Vigil.move, Vigil.settle, hboard, Vigil.patience]
  | ends ending => exact Nat.le_refl _

theorem Passes.done (h : Passes id g v n more g' v') (hk : Keeps id g shown v)
    (hdone : Concluded shown ∨ g.board.closed = true) :
    Concluded (shown ++ more) ∨ g'.board.closed = true := by
  refine hdone.imp (fun hconcluded => ?_) (h.closed hk)
  have hmoves := (List.isChain_append.mp (h.keeps hk).follows.moves).1
  rwa [hconcluded.nothing_more hmoves, List.append_nil]

theorem Passes.patience (h : Passes id g v n more g' v') (hk : Keeps id g shown v)
    (hdone : Concluded shown ∨ g.board.closed = true) : v'.patience ≤ v.patience - n := by
  induction h with
  | refl => exact Nat.le_refl _
  | goesOn hpass hstep ih =>
    rw [(hpass.keeps hk).patience_goesOn hstep (hpass.done hk hdone)]
    exact ih hk
  | moves hpass ih =>
    have hone := (hpass.keeps hk).patience_moves (hpass.done hk hdone)
    have hall := ih hk
    omega

/-- Once the job has ended or the table is closed, a vigil ends. -/
theorem Passes.ends (h : Passes id g v n more g' v') (hk : Keeps id g shown v)
    (hdone : Concluded shown ∨ g.board.closed = true) (hn : 4 ≤ n) :
    ∃ ending, v' = .ends ending := by
  have hpatience := h.patience hk hdone
  have hmost : v.patience ≤ 4 := by
    cases v with
    | sleeps stirred => cases stirred <;> simp [Vigil.patience]
    | _ => simp [Vigil.patience]
  exact Vigil.ends_of_patience (by omega)

end Gallery

end Switchboard
