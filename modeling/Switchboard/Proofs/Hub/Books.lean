import Switchboard.Proofs.Calls.Heeding
import Switchboard.Proofs.Hub.Guards
import Switchboard.Proofs.Hub.Starts
import Switchboard.Proofs.Jobs.Exhibits

namespace Switchboard

open JobTable

def Letter.report? : Letter → Option JobReport
  | .request _ _ _ => none
  | .report r => some r

theorem reports_of_find {letters : List Letter} {r : JobReport}
    (h : letters.find? Letter.isReport = some (.report r)) :
    letters.filterMap Letter.report? =
      r :: (letters.eraseP Letter.isReport).filterMap Letter.report? := by
  obtain ⟨hr, before, after, rfl, hnot⟩ := List.find?_eq_some_iff_append.mp h
  have hnone : before.filterMap Letter.report? = [] := by
    refine List.filterMap_eq_nil_iff.mpr fun l hl => ?_
    have hrequest := hnot l hl
    cases l with
    | request r task next => rfl
    | report r => cases hrequest
  rw [List.eraseP_append_right _ fun l hl => by simpa using hnot l hl, List.eraseP_cons_of_pos hr,
    List.filterMap_append, List.filterMap_append, hnone]
  rfl

theorem reports_eraseP (letters : List Letter) :
    (letters.eraseP Letter.isRequest).filterMap Letter.report? =
      letters.filterMap Letter.report? := by
  induction letters with
  | nil => rfl
  | cons l rest ih =>
    cases l with
    | request r task next => rfl
    | report r =>
      rw [List.eraseP_cons_of_neg (by simp [Letter.isRequest]), List.filterMap_cons,
        List.filterMap_cons, ih]

def Workshop.handedIn (w : Workshop JobBody) : List (Nat × JobBody) := w.taken.map Hub.handedIn

/-- A number is given to one job only. -/
theorem Workshop.Sound.body_unique {w : Workshop JobBody} (h : w.Sound) {id : Nat}
    {body body' : JobBody} (hb : (id, body) ∈ w.handedIn) (hb' : (id, body') ∈ w.handedIn) :
    body = body' := by
  have hids : w.handedIn.map Prod.fst = w.taken.map Prod.fst := List.map_map.trans rfl
  have hnodup : (w.handedIn.map Prod.fst).Nodup := hids ▸ h.ledger.sorted.imp Nat.ne_of_lt
  exact (Prod.mk.inj (List.inj_on_of_nodup_map hnodup hb hb' rfl)).2

namespace Hub

variable {s s' : Hub} {x : Exchange} {w : Workshop JobBody}

theorem board_adopt (s : Hub) (t : JobTable JobBody) :
    (s.adopt t).board = t.effects.foldl JobBoard.see s.board := board_foldl_apply t.effects _

/-- The table is at work in a workshop, and the ends that were reported or are shown have
happened. -/
structure Books (s : Hub) (x : Exchange) (w : Workshop JobBody) : Prop where
  kept : s.kept = true
  table : w.table = s.jobs
  mail : w.mail = s.letters.filterMap Letter.report?
  exhibits : Exhibits w s.board
  ran : ∀ id result, .finished id result ∈ w.mail → Ran x { jobs := w.handedIn } id result
  ends : ∀ id name args raw, (id, .method name args raw) ∈ w.handedIn →
    ∀ shown, s.board.snapshot? id = some shown → shown.state.isTerminal = true →
      Happens x (.job id name args raw (.ok shown))

namespace Books

theorem same (hb : s.Books x w) (hsame : SameKeeping s s')
    (hmail : s'.letters.filterMap Letter.report? = s.letters.filterMap Letter.report?) :
    s'.Books x w where
  kept := hsame.kept.trans hb.kept
  table := hb.table.trans hsame.jobs.symm
  mail := hb.mail.trans hmail.symm
  exhibits := hsame.board ▸ hb.exhibits
  ran := hb.ran
  ends := hsame.board ▸ hb.ends

theorem told (hb : s.Books x w) {id : Nat} {name : String} {args raw : List Json}
    (hjob : (id, .method name args raw) ∈ w.handedIn) {ending : Except CallError JobSnapshot}
    (hending : s.board.ending? id = some ending) : Happens x (.job id name args raw ending) := by
  obtain ⟨j, hj, heq⟩ := List.mem_map.mp hjob
  obtain ⟨rfl, -⟩ := Prod.mk.inj heq
  obtain ⟨shown, rfl, hshown, hend⟩ := hb.exhibits.ended hj hending
  exact hb.ends j.1 name args raw hjob shown hshown hend

theorem send (hb : s.Books x w) {r : JobReport} (hr : r.finished? = none) :
    Books { s with letters := s.letters ++ [.report r] } x (w.send r) := by
  have hstep : w.Step (w.send r) := by
    cases r with
    | progressed id percent description => exact .progress w id percent description
    | finished id outcome => cases hr
    | lockTimedOut id => exact .timer w id
  refine ⟨hb.kept, hb.table, ?_, hb.exhibits.aside hstep rfl rfl, fun id result hmem => ?_, hb.ends⟩
  · rw [Workshop.send, hb.mail, List.filterMap_append]
    rfl
  · rcases List.mem_append.mp hmem with hmem | hmem
    · exact hb.ran id result hmem
    · rw [← List.mem_singleton.mp hmem] at hr
      cases hr

theorem endBody (hb : s.Books x w) {id : Nat} {result : Except CallError Json} (hid : id ∈ w.atWork)
    (hran : Ran x { jobs := w.handedIn } id result) :
    Books { s with letters := s.letters ++ [.report (.finished id result)] } x
      (w.endBody id result) := by
  refine ⟨hb.kept, hb.table, ?_, hb.exhibits.aside (.endBody w id result hid) rfl rfl,
    fun id' result' hmem => ?_, hb.ends⟩
  · rw [Workshop.endBody, Workshop.send, hb.mail, List.filterMap_append]
    rfl
  · rcases List.mem_append.mp hmem with hmem | hmem
    · exact hb.ran id' result' hmem
    · cases List.mem_singleton.mp hmem
      exact hran

theorem submit (hb : s.Books x w) {job : NewJob JobBody} (hnew : s.jobs.standIn? job = none) :
    (s.adopt (s.jobs.submit s.now job).1).Books x (w.submit s.now job) := by
  rw [← hb.table] at hnew ⊢
  have htaken := Workshop.taken_submit hnew s.now
  have hgrows : w.handedIn ⊆ (w.submit s.now job).handedIn := by
    rw [Workshop.handedIn, Workshop.handedIn, htaken, List.map_append]
    exact List.subset_append_left _ _
  obtain ⟨hjobs, hkept, -⟩ := adopt_jobs s (w.table.submit s.now job).1
  obtain ⟨hexhibits, hold⟩ := hb.exhibits.submit s.now hnew
  rw [← board_adopt] at hexhibits hold
  refine ⟨hkept.trans hb.kept, hjobs.symm, ?_, hexhibits, fun id result hmem => ?_,
    fun id name args raw hmem shown hshown hend => ?_⟩
  · rw [letters_adopt]
    exact hb.mail
  · exact (hb.ran id result hmem).mono hgrows
  · have hbefore := hold id shown hshown hend
    rw [Workshop.handedIn, htaken, List.map_append] at hmem
    rcases List.mem_append.mp hmem with hmem | hmem
    · exact hb.ends id name args raw hmem shown hbefore hend
    · obtain ⟨rfl, -⟩ := Prod.mk.inj (List.mem_singleton.mp hmem)
      exact absurd (hb.exhibits.bounded _ shown hbefore) (Nat.lt_irrefl _)

theorem report (hb : s.Books x w) {r : JobReport}
    (hfind : s.letters.find? Letter.isReport = some (.report r)) :
    let opened : Hub := { s with letters := s.letters.eraseP Letter.isReport }
    (opened.adopt (s.jobs.report s.now r)).Books x
      (w.handle s.now r (opened.letters.filterMap Letter.report?)) := by
  intro opened
  have hmail := hb.mail.trans (reports_of_find hfind)
  obtain ⟨hexhibits, hends⟩ := hb.exhibits.handle s.now hmail
  rw [hb.table] at hexhibits hends
  obtain ⟨hjobs, hkept, -⟩ := adopt_jobs opened (s.jobs.report s.now r)
  have hboard : (opened.adopt (s.jobs.report s.now r)).board =
      (s.jobs.report s.now r).effects.foldl JobBoard.see s.board := board_adopt _ _
  rw [← hboard] at hexhibits hends
  refine ⟨hkept.trans hb.kept, ?_, ?_, hexhibits, fun id result hmem => ?_,
    fun id name args raw hmem shown hshown hend => ?_⟩
  · rw [hjobs, Workshop.handle, hb.table]
    rfl
  · rw [letters_adopt]
    rfl
  · exact hb.ran id result (hmail ▸ List.mem_cons_of_mem _ hmem)
  · rcases hends id shown hshown hend with hold | ⟨hid, hended⟩
    · exact hb.ends id name args raw hmem shown hold hend
    · cases hended with
      | @finished e outcome hunharmed =>
        have hsame : (e.settled s.now outcome).snapshot.id = e.id := endSnapshot_id s.now _ _
        obtain rfl : e.id = id := hsame.symm.trans hid
        obtain ⟨body, hbody, tr, hruns, hanswered, hbranches⟩ :=
          hb.ran e.id outcome (hmail ▸ List.mem_cons_self)
        obtain rfl := hb.exhibits.shop.body_unique hbody hmem
        exact .job s.now hruns hanswered hbranches hunharmed
      | timedOut e lock =>
        obtain rfl : e.id = id := hid
        exact .timedOut s.now lock

end Books

end Hub

end Switchboard
