import Mathlib.Data.List.Induction
import Mathlib.Data.List.Perm.Subperm
import Switchboard.Broadcaster
import Switchboard.Proofs.Jobs.Views

namespace Switchboard

namespace Broadcaster

variable {α : Type} {b : Broadcaster α} {id other : Nat} {values : List α}

theorem lookup_map {f : Nat → List α → List α} (l : List (Nat × List α)) (id : Nat) :
    (l.map fun q => (q.1, f q.1 q.2)).lookup id = (l.lookup id).map (f id) := by
  induction l with
  | nil => rfl
  | cons q rest ih =>
    obtain ⟨key, queue⟩ := q
    by_cases hk : id = key
    · simp [hk]
    · simp [List.lookup_cons, beq_false_of_ne hk, ih]

theorem queue?_broadcast (h : b.queue? id = some values) (hid : id ∈ b.senders) (v : α) :
    (b.broadcast v).queue? id = some (values ++ [v]) := by
  have hmap : (b.broadcast v).queues =
      b.queues.map fun q => (q.1, if q.1 ∈ b.senders then q.2 ++ [v] else q.2) := by
    refine List.map_congr_left fun q _ => ?_
    split <;> rfl
  have hlookup := lookup_map (f := fun k l => if k ∈ b.senders then l ++ [v] else l) b.queues id
  rw [queue?, hmap, hlookup, show b.queues.lookup id = some values from h]
  simp [hid]

theorem mem_senders_broadcast (h : b.queue? id = some values) (hid : id ∈ b.senders) (v : α) :
    id ∈ (b.broadcast v).senders :=
  List.mem_filter.mpr ⟨hid, by simp [isLive, h]⟩

theorem queue?_setQueue (b : Broadcaster α) (id other : Nat) (l : List α) :
    (b.setQueue other l).queue? id =
      if id = other then (b.queue? id).map fun _ => l else b.queue? id := by
  have hmap : (b.setQueue other l).queues =
      b.queues.map fun q => (q.1, if q.1 = other then l else q.2) := by
    refine List.map_congr_left fun q _ => ?_
    split
    next heq => rw [heq]
    next => rfl
  rw [queue?, hmap, lookup_map (f := fun k queue => if k = other then l else queue)]
  split <;> simp [queue?]

theorem queue?_drop_of_ne (h : id ≠ other) : (b.drop other).queue? id = b.queue? id := by
  have hlookup := lookup_filter_ne b.queues other id
  rwa [if_neg h] at hlookup

theorem queue?_subscribe (h : b.queue? id = some values) :
    b.subscribe.2.queue? id = some values := by
  have happend : ∀ l : List (Nat × List α), l.lookup id = some values →
      (l ++ [(b.nextId, [])]).lookup id = some values := by
    intro l hl
    rw [List.lookup_append, hl, Option.some_or]
  exact happend b.queues h

theorem queue?_subscribe_new (h : ∀ q ∈ b.queues, q.1 < b.nextId) :
    b.subscribe.2.queue? b.nextId = some [] := by
  have hnone : b.queues.lookup b.nextId = none := by
    refine List.lookup_eq_none_iff.mpr fun q hq => ?_
    have hlt := h q hq
    simpa using Nat.ne_of_gt hlt
  change (b.queues ++ [(b.nextId, [])]).lookup b.nextId = some []
  rw [List.lookup_append, hnone, Option.none_or]
  simp

/-- A receiver that is there, and what waits for it. Unless the broadcast is over, it gets what
comes. -/
structure Listens (b : Broadcaster α) (going : Bool) (id : Nat) (values : List α) : Prop where
  queue : b.queue? id = some values
  sender : going = true → id ∈ b.senders

theorem Listens.broadcast (h : b.Listens true id values) (v : α) :
    (b.broadcast v).Listens true id (values ++ [v]) :=
  ⟨queue?_broadcast h.queue (h.sender rfl) v,
    fun _ => mem_senders_broadcast h.queue (h.sender rfl) v⟩

theorem Listens.broadcastAll (h : b.Listens true id values) (more : List α) :
    (b.broadcastAll more).Listens true id (values ++ more) := by
  induction more generalizing b values with
  | nil => rwa [List.append_nil]
  | cons v rest ih => exact List.append_cons .. ▸ ih (h.broadcast v)

theorem Listens.subscribe {going : Bool} (h : b.Listens going id values) :
    b.subscribe.2.Listens going id values :=
  ⟨queue?_subscribe h.queue, fun hgoing => List.mem_append_left _
    (List.mem_filter.mpr ⟨h.sender hgoing, by simp [isLive, h.queue]⟩)⟩

theorem Listens.close {going : Bool} (h : b.Listens going id values) :
    b.close.Listens false id values := ⟨h.queue, fun hgoing => by cases hgoing⟩

def Numbered (b : Broadcaster α) : Prop := ∀ q ∈ b.queues, q.1 < b.nextId

theorem Numbered.setQueue (h : b.Numbered) (l : List α) : (b.setQueue id l).Numbered := by
  intro q hq
  obtain ⟨q', hq', rfl⟩ := List.mem_map.mp hq
  have hlt := h q' hq'
  split
  next heq => exact heq ▸ hlt
  next => exact hlt

theorem Numbered.drop (h : b.Numbered) : (b.drop id).Numbered := fun q hq =>
  h q (List.mem_filter.mp hq).1

theorem Numbered.broadcastAll (h : b.Numbered) (values : List α) :
    (b.broadcastAll values).Numbered ∧ (b.broadcastAll values).nextId = b.nextId := by
  induction values generalizing b with
  | nil => exact ⟨h, rfl⟩
  | cons v rest ih =>
    refine ih fun q hq => ?_
    obtain ⟨q', hq', rfl⟩ := List.mem_map.mp hq
    have hlt := h q' hq'
    split <;> exact hlt

theorem Numbered.subscribe (h : b.Numbered) : b.subscribe.2.Numbered := by
  intro q hq
  rcases List.mem_append.mp hq with hq | hq
  · exact Nat.lt_succ_of_lt (h q hq)
  · cases List.mem_singleton.mp hq
    exact Nat.lt_succ_self _

/-- What can be done with a broadcaster and with its receivers. -/
inductive Move (α : Type) where
  | subscribe
  | send (v : α)
  | take (id : Nat)
  | drop (id : Nat)
  | close

namespace Move

def isReceiving : Move α → Bool
  | take _ | drop _ => true
  | _ => false

def isClose : Move α → Bool
  | close => true
  | _ => false

def sent? : Move α → Option α
  | send v => some v
  | _ => none

/-- The number of the next receiver and the receivers that are there, after one more move. -/
def attend (audience : Nat × List Nat) : Move α → Nat × List Nat
  | subscribe => (audience.1 + 1, audience.2 ++ [audience.1])
  | drop id => (audience.1, audience.2.filter (· != id))
  | _ => audience

end Move

def Allowed (moves : List (Move α)) : Prop :=
  moves.Pairwise fun m later => m.isClose = true → later.isReceiving = true

def audience (moves : List (Move α)) : Nat × List Nat := moves.foldl Move.attend (0, [])

def does (b : Broadcaster α) : Move α → Broadcaster α
  | .subscribe => b.subscribe.2
  | .send v => b.broadcast v
  | .take id => (b.take? id).elim b Prod.snd
  | .drop id => b.drop id
  | .close => b.close

def plays (b : Broadcaster α) (moves : List (Move α)) : Broadcaster α := moves.foldl does b

def takenIn (b : Broadcaster α) (id : Nat) : Move α → List α
  | .take other => if other = id then ((b.take? id).map Prod.fst).toList else []
  | _ => []

def taken (b : Broadcaster α) (id : Nat) : List (Move α) → List α
  | [] => []
  | m :: rest => b.takenIn id m ++ (b.does m).taken id rest

/-- What a receiver is told that asks for a value. -/
inductive Reception (α : Type) where
  | value (v : α)
  | pending
  | ended

def reception (b : Broadcaster α) (id : Nat) : Reception α :=
  match b.take? id with
  | some (v, _) => .value v
  | none => if b.isClosed id then .ended else .pending

theorem take?_of_queue (h : b.queue? id = some values) : b.take? id =
    values.head?.map fun v => (v, b.setQueue id values.tail) := by
  unfold take?
  rw [h]
  cases values <;> rfl

theorem Listens.setQueue_other {going : Bool} (h : b.Listens going id values) (hne : id ≠ other)
    (l : List α) : (b.setQueue other l).Listens going id values :=
  ⟨by rw [queue?_setQueue, if_neg hne, h.queue], h.sender⟩

/-- A move leaves waiting for a receiver what waited and what is sent, but for what it takes. -/
theorem Listens.does {going : Bool} (h : b.Listens going id values) {m : Move α}
    (hok : going = false → m.isReceiving = true) (hstays : m ≠ .drop id) :
    ∃ left, (b.does m).Listens (going && !m.isClose) id left ∧
      b.takenIn id m ++ left = values ++ m.sent?.toList := by
  cases m with
  | subscribe =>
    refine ⟨values, ?_, by simp [takenIn, Move.sent?]⟩
    rw [show (going && !(Move.subscribe : Move α).isClose) = going from Bool.and_true _]
    exact h.subscribe
  | send v =>
    cases hgoing : going with
    | false => cases hok hgoing
    | true =>
      subst hgoing
      exact ⟨values ++ [v], h.broadcast v, rfl⟩
  | take other =>
    rw [show (going && !(Move.take other : Move α).isClose) = going from Bool.and_true _]
    by_cases hother : other = id
    · subst hother
      simp only [Broadcaster.does, takenIn, if_true, take?_of_queue h.queue]
      cases values with
      | nil => exact ⟨[], h, rfl⟩
      | cons v rest =>
        exact ⟨rest, ⟨by simp [queue?_setQueue, h.queue], h.sender⟩, by simp [Move.sent?]⟩
    · refine ⟨values, ?_, by simp [takenIn, hother, Move.sent?]⟩
      simp only [Broadcaster.does]
      cases htake : b.take? other with
      | none => exact h
      | some took =>
        unfold take? at htake
        split at htake
        next => cases htake; exact h.setQueue_other (Ne.symm hother) _
        next => cases htake
  | drop other =>
    have hne : id ≠ other := fun heq => hstays (heq ▸ rfl)
    refine ⟨values, ⟨(queue?_drop_of_ne hne).trans h.queue, fun hgoing => ?_⟩,
      by simp [takenIn, Move.sent?]⟩
    exact h.sender (by simpa [Move.isClose] using hgoing)
  | close =>
    refine ⟨values, ?_, by simp [takenIn, Move.sent?]⟩
    rw [show (going && !(Move.close : Move α).isClose) = false from Bool.and_false _]
    exact h.close

theorem Listens.plays {going : Bool} (h : b.Listens going id values) {moves : List (Move α)}
    (hallowed : Allowed moves) (hok : going = false → ∀ m ∈ moves, m.isReceiving = true)
    (hstays : .drop id ∉ moves) :
    ∃ left, (b.plays moves).Listens (going && !moves.any Move.isClose) id left ∧
      b.taken id moves ++ left = values ++ moves.filterMap Move.sent? := by
  induction moves generalizing b going values with
  | nil => exact ⟨values, by simpa [Broadcaster.plays] using h, by simp [taken]⟩
  | cons m rest ih =>
    obtain ⟨hlater, hrest⟩ := List.pairwise_cons.mp hallowed
    obtain ⟨left, hleft, htaken⟩ := h.does (m := m)
      (fun hgone => hok hgone m List.mem_cons_self) (fun heq => hstays (heq ▸ List.mem_cons_self))
    obtain ⟨left', hleft', htaken'⟩ := ih hleft hrest
      (fun hgone m' hm' => by
        rcases Bool.and_eq_false_iff.mp hgone with hgone | hclose
        · exact hok hgone m' (List.mem_cons_of_mem _ hm')
        · exact hlater m' hm' (by simpa using hclose))
      (fun hmem => hstays (List.mem_cons_of_mem _ hmem))
    refine ⟨left', ?_, ?_⟩
    · simpa [Broadcaster.plays, Bool.and_assoc] using hleft'
    · rw [taken, List.append_assoc, htaken', ← List.append_assoc, htaken, List.append_assoc]
      cases hsent : m.sent? <;> simp [hsent]

/-- The queues are those of the audience, and its senders are among those that values are sent
to. -/
structure Attended (b : Broadcaster α) (audience : Nat × List Nat) (gone : Bool) : Prop where
  nextId : b.nextId = audience.1
  keys : b.queues.map Prod.fst = audience.2
  nodup : audience.2.Nodup
  bound : ∀ id ∈ audience.2, id < audience.1
  senders : b.senders.Nodup
  known : ∀ id ∈ b.senders, id < audience.1
  sender : gone = false → ∀ id ∈ audience.2, id ∈ b.senders
  left : gone = true → b.senders = []

namespace Attended

variable {a : Nat × List Nat} {gone : Bool}

theorem live_iff (h : b.Attended a gone) : b.isLive id = true ↔ id ∈ a.2 := by
  rw [isLive, queue?, ← h.keys, List.lookup_isSome_iff, List.mem_map]
  exact exists_congr fun q => and_congr_right fun _ => beq_iff_eq.trans eq_comm

theorem setQueue (h : b.Attended a gone) (l : List α) : (b.setQueue id l).Attended a gone := by
  have hkeys : (b.setQueue id l).queues.map Prod.fst = b.queues.map Prod.fst := by
    simp only [Broadcaster.setQueue, List.map_map]
    refine List.map_congr_left fun q _ => ?_
    simp only [Function.comp]
    split
    next heq => exact heq.symm
    next => rfl
  exact { h with keys := hkeys.trans h.keys }

theorem mem_filter_live (h : b.Attended a false) : id ∈ b.senders.filter b.isLive ↔ id ∈ a.2 := by
  rw [List.mem_filter, h.live_iff]
  exact ⟨And.right, fun hid => ⟨h.sender rfl id hid, hid⟩⟩

theorem does (h : b.Attended a gone) {m : Move α} (hok : gone = true → m.isReceiving = true) :
    (b.does m).Attended (m.attend a) (gone || m.isClose) := by
  cases m with
  | subscribe =>
    cases hgone : gone with
    | true => cases hok hgone
    | false =>
      subst hgone
      have hnew : a.1 ∉ a.2 := fun hmem => Nat.lt_irrefl _ (h.bound _ hmem)
      have hsenders : ∀ id, id ∈ b.senders.filter b.isLive ++ [a.1] ↔ id ∈ a.2 ++ [a.1] := by
        intro id
        rw [List.mem_append, List.mem_append, h.mem_filter_live]
      have hbound : ∀ id ∈ a.2 ++ [a.1], id < a.1 + 1 := by
        intro id hid
        rcases List.mem_append.mp hid with hid | hid
        · exact Nat.lt_succ_of_lt (h.bound id hid)
        · exact List.mem_singleton.mp hid ▸ Nat.lt_succ_self _
      refine ⟨congrArg (· + 1) h.nextId, ?_, ?_, hbound, ?_, fun id hid => ?_, fun _ id hid => ?_,
        fun hgone => by cases hgone⟩
      · simp [Broadcaster.does, Broadcaster.subscribe, Move.attend, h.keys, h.nextId]
      · exact List.nodup_append.mpr ⟨h.nodup, List.nodup_singleton _, fun x hx y hy heq =>
          hnew (List.mem_singleton.mp hy ▸ heq ▸ hx)⟩
      · have hnot : b.nextId ∉ b.senders.filter b.isLive := by
          rw [h.mem_filter_live, h.nextId]
          exact hnew
        exact List.nodup_append.mpr ⟨h.senders.filter _, List.nodup_singleton _,
          fun x hx y hy heq => hnot (List.mem_singleton.mp hy ▸ heq ▸ hx)⟩
      · simp only [Broadcaster.does, Broadcaster.subscribe, h.nextId] at hid
        exact hbound id ((hsenders id).mp hid)
      · simp only [Broadcaster.does, Broadcaster.subscribe, h.nextId]
        exact (hsenders id).mpr hid
  | send v =>
    cases hgone : gone with
    | true => cases hok hgone
    | false =>
      subst hgone
      have hkeys : (b.broadcast v).queues.map Prod.fst = b.queues.map Prod.fst := by
        simp only [Broadcaster.broadcast, List.map_map]
        refine List.map_congr_left fun q _ => ?_
        simp only [Function.comp]
        split <;> rfl
      exact ⟨h.nextId, hkeys.trans h.keys, h.nodup, h.bound, h.senders.filter _,
        fun id hid => h.known id (List.mem_filter.mp hid).1,
        fun _ id hid => h.mem_filter_live.mpr hid, fun hgone => by cases hgone⟩
  | take other =>
    rw [show (gone || (Move.take other : Move α).isClose) = gone from Bool.or_false _]
    simp only [Broadcaster.does, Move.attend]
    cases htake : b.take? other with
    | none => exact h
    | some took =>
      unfold take? at htake
      split at htake
      next => cases htake; exact h.setQueue _
      next => cases htake
  | drop other =>
    rw [show (gone || (Move.drop other : Move α).isClose) = gone from Bool.or_false _]
    have hkeys : (b.drop other).queues.map Prod.fst = a.2.filter (· != other) := by
      rw [← h.keys, List.filter_map]
      rfl
    exact ⟨h.nextId, hkeys, h.nodup.filter _, fun id hid => h.bound id (List.mem_filter.mp hid).1,
      h.senders, h.known, fun hgone id hid => h.sender hgone id (List.mem_filter.mp hid).1, h.left⟩
  | close =>
    rw [show (gone || (Move.close : Move α).isClose) = true from Bool.or_true _]
    exact ⟨h.nextId, h.keys, h.nodup, h.bound, List.nodup_nil, fun _ => nofun, nofun,
      fun _ => rfl⟩

end Attended

theorem attended_plays {moves : List (Move α)} (hallowed : Allowed moves) :
    (({} : Broadcaster α).plays moves).Attended (audience moves) (moves.any Move.isClose) := by
  induction moves using List.reverseRecOn with
  | nil =>
    exact ⟨rfl, rfl, List.nodup_nil, fun _ => nofun, List.nodup_nil, fun _ => nofun,
      fun _ _ => nofun, fun _ => rfl⟩
  | append_singleton moves m ih =>
    obtain ⟨hbefore, -, hlast⟩ := List.pairwise_append.mp hallowed
    have hm := (ih hbefore).does (m := m) fun hgone => by
      obtain ⟨m', hm', hclose⟩ := List.any_eq_true.mp hgone
      exact hlast m' hm' m (List.mem_singleton_self m) hclose
    simpa [plays, audience, List.foldl_append] using hm

/-- What a receiver has got that came with the number `id` after some moves, and did not go during
those that followed. -/
structure Hears (before after : List (Move α)) (id : Nat) : Prop where
  /-- It has taken or finds waiting what was sent since it came. -/
  received : ∃ waiting,
    (({} : Broadcaster α).plays (before ++ .subscribe :: after)).queue? id = some waiting ∧
    (({} : Broadcaster α).plays (before ++ [.subscribe])).taken id after ++ waiting =
      after.filterMap Move.sent?
  /-- It is told of the end once the broadcaster is gone and all that was sent is taken. -/
  ended : (({} : Broadcaster α).plays (before ++ .subscribe :: after)).reception id = .ended ↔
    after.any Move.isClose = true ∧
      (({} : Broadcaster α).plays (before ++ [.subscribe])).taken id after =
        after.filterMap Move.sent?

structure Lossless (moves : List (Move α)) : Prop where
  hears : ∀ before after id, moves = before ++ .subscribe :: after → (audience before).1 = id →
    .drop id ∉ after → Hears before after id
  counted : moves.any Move.isClose = false →
    (audience moves).2.length ≤ (({} : Broadcaster α).plays moves).size
  countedNow : ∀ before m, moves = before ++ [m] → m = .subscribe ∨ (∃ v, m = .send v) →
    (({} : Broadcaster α).plays moves).size = (audience moves).2.length

theorem reception_eq_ended_iff (h : b.queue? id = some values) :
    b.reception id = .ended ↔ b.isClosed id = true ∧ values = [] := by
  rw [reception, take?_of_queue h]
  cases values with
  | nil => cases b.isClosed id <;> simp
  | cons v rest => simp

theorem hears_of_allowed {before after : List (Move α)}
    (hallowed : Allowed (before ++ .subscribe :: after)) (hid : (audience before).1 = id)
    (hstays : .drop id ∉ after) : Hears before after id := by
  obtain ⟨hbefore, hfrom, hcross⟩ := List.pairwise_append.mp hallowed
  obtain ⟨-, hafter⟩ := List.pairwise_cons.mp hfrom
  have hopen : before.any Move.isClose = false := by
    refine List.any_eq_false.mpr fun m hm hclose => ?_
    cases hcross m hm _ List.mem_cons_self hclose
  -- the receiver comes to a broadcaster that is there, with nothing waiting
  have hattended := attended_plays hbefore
  have hplays : ({} : Broadcaster α).plays (before ++ [.subscribe]) =
      (({} : Broadcaster α).plays before).subscribe.2 := List.foldl_append
  have hcomes : (({} : Broadcaster α).plays (before ++ [.subscribe])).Listens true id [] := by
    rw [hplays, ← hid, ← hattended.nextId]
    refine ⟨queue?_subscribe_new fun q hq => ?_, fun _ => by simp [subscribe]⟩
    rw [hattended.nextId]
    exact hattended.bound q.1 (hattended.keys ▸ List.mem_map_of_mem hq)
  obtain ⟨waiting, hlistens, htaken⟩ := hcomes.plays hafter nofun hstays
  have hall : (({} : Broadcaster α).plays (before ++ [.subscribe])).plays after =
      ({} : Broadcaster α).plays (before ++ .subscribe :: after) := by
    simp [plays]
  rw [hall] at hlistens
  refine ⟨⟨waiting, hlistens.queue, htaken⟩, ?_⟩
  rw [reception_eq_ended_iff hlistens.queue]
  have hclosed : (({} : Broadcaster α).plays (before ++ .subscribe :: after)).isClosed id = true ↔
      after.any Move.isClose = true := by
    have hend := attended_plays hallowed
    cases hgone : after.any Move.isClose with
    | true => simp [isClosed, hend.left (by simp [hgone])]
    | false => simpa [isClosed] using hlistens.sender (by simp [hgone])
  rw [List.nil_append] at htaken
  rw [hclosed, ← htaken]
  simp

/-- Whatever is done with a broadcaster and its receivers, as long as nothing is asked of one that
is gone, no receiver misses anything that is sent. -/
theorem broadcaster_is_lossless {moves : List (Move α)} (hallowed : Allowed moves) :
    Lossless moves where
  hears before after id hmoves hid hstays := hears_of_allowed (hmoves ▸ hallowed) hid hstays
  counted hopen := by
    have hattended := attended_plays hallowed
    exact (hattended.nodup.subperm (hattended.sender hopen)).length_le
  countedNow before m hmoves hm := by
    subst hmoves
    obtain ⟨hbefore, -, hlast⟩ := List.pairwise_append.mp hallowed
    have hopen : before.any Move.isClose = false := by
      refine List.any_eq_false.mpr fun m' hm' hclose => ?_
      have hreceiving := hlast m' hm' m (List.mem_singleton_self m) hclose
      rcases hm with rfl | ⟨v, rfl⟩ <;> cases hreceiving
    have hattended := attended_plays hbefore
    rw [hopen] at hattended
    have hlive := ((List.perm_ext_iff_of_nodup (hattended.senders.filter _) hattended.nodup).mpr
      fun _ => hattended.mem_filter_live).length_eq
    rcases hm with rfl | ⟨v, rfl⟩
    · simpa [plays, audience, List.foldl_append, does, Move.attend, size, subscribe] using hlive
    · simpa [plays, audience, List.foldl_append, does, Move.attend, size, broadcast] using hlive

/-- Three receivers come, one of them goes, and two have not taken all when the broadcaster goes. -/
def bustle : List (Move Nat) :=
  [.subscribe, .send 1, .subscribe, .send 2, .take 0, .drop 0, .subscribe, .send 3, .take 1, .close,
    .take 1]

theorem broadcaster_is_lossless_in_bustle : Allowed bustle ∧ Lossless bustle ∧
    (({} : Broadcaster Nat).plays bustle).reception 1 = .ended ∧
    (({} : Broadcaster Nat).plays bustle).reception 2 = .value 3 := by
  have hallowed : Allowed bustle := by
    unfold Allowed
    decide
  exact ⟨hallowed, broadcaster_is_lossless hallowed, rfl, rfl⟩

end Broadcaster

end Switchboard
