import Switchboard.Proofs.Calls.Panics
import Switchboard.Proofs.Calls.Registration
import Switchboard.Proofs.Query.Options

namespace Switchboard

open Routine

theorem Param.clean_required_int {name path : String} {value result : Option Json}
    (h : (int name).require.clean path value [] = (result, [])) :
    ∃ n, result = some (.int n) ∧ ∀ k, value = some (.int k) → k = n := by
  cases value with
  | none => exact absurd (congrArg Prod.snd h) (clean_required rfl)
  | some v =>
    obtain ⟨c, hc⟩ := clean_present (congrArg Prod.snd h)
    cases (congrArg Prod.fst h).symm.trans hc
    have hv : v ≠ .null := by
      rintro rfl
      cases (clean_null_iff.mp h).2
    have hcoerce := ((clean_scalar_iff hv).mp h).1
    obtain ⟨n, rfl⟩ := Scalar.has_of_coerce? hv hcoerce
    refine ⟨n, rfl, fun k hk => ?_⟩
    cases hk
    simpa [Scalar.coerce?, coerceInt?, Json.int] using hcoerce

namespace CrudService

variable {s : CrudService} {args cleaned : List Json} {n : Int} {o : QueryOptions}

/-- What a call for a record asks for: a key, and what is to be made of the record. -/
theorem asked_of_clean (hid : s.idParam = (Param.int "id").require)
    (h : Accepts.clean [s.idParam, queryOptionsParam] args = .ok cleaned) :
    ∃ (n : Int) (o : QueryOptions), cleaned = [.int n, o.toJson] ∧
      (∀ k : Int, args[0]? = some (.int k) → k = n) ∧
      (o.count = true ↔ (args[1]?.bind fun v => v.get? "count") = some (.bool true)) := by
  have heach := Accepts.cleanEach_of_clean h
  have hlength := Accepts.length_of_clean h
  have hclean := fun i p => Accepts.cleanEach_clean (congrArg Prod.snd heach) (i := i) (p := p)
  rw [heach] at hclean
  obtain ⟨key, hkey, hfirst⟩ := hclean 0 _ rfl
  obtain ⟨options, hoptions, hsecond⟩ := hclean 1 _ rfl
  rw [hid] at hkey
  obtain ⟨n, rfl, hn⟩ := Param.clean_required_int hkey
  obtain ⟨o, rfl, hcount⟩ := options_of_clean hoptions
  obtain ⟨first, second, rfl⟩ := List.length_eq_two.mp hlength
  cases hfirst
  cases hsecond
  exact ⟨n, o, rfl, hn, hcount⟩

/-- The records whose primary key equals `id`. -/
def withKey (s : CrudService) (id : Json) (records : List Json) : List Json :=
  records.filter fun record => (record.atPath s.primaryKey).equals id

/-- What a call for the record with a key is answered, given how the listing of all records ends. -/
inductive Answers (s : CrudService) (id : Json) (o : QueryOptions) :
    Except PanicPayload (Except CallError (List Json)) → Except CallError Json → Prop where
  | found {records : List Json} {record : Json} (hcount : o.count = false)
      (h : s.withKey id records = [record]) :
      Answers s id o (.ok (.ok records))
        (.ok (if o.select = [] then record else selectFields record o.select))
  | missing {records : List Json} (hcount : o.count = false) (h : s.withKey id records = []) :
      Answers s id o (.ok (.ok records)) (.error (.notFound s!"{s.space} {id.text} does not exist"))
  | several {records : List Json} (hcount : o.count = false)
      (h : 1 < (s.withKey id records).length) :
      Answers s id o (.ok (.ok records)) (.error (.tooManyMatches (s.withKey id records).length))
  | counted {records : List Json} (hcount : o.count = true) :
      Answers s id o (.ok (.ok records)) (.ok (.nat (s.withKey id records).length))
  | unlisted (e : CallError) :
      Answers s id o (.ok (.error e))
        (attributed s!"{s.space}.get_instance" (s.named id (.error e)))
  | panicked (p : PanicPayload) :
      Answers s id o (.error p) (.error (.call s!"{s.space}.get_instance" (Outcome.panicText p)))

theorem answer_ofResult (method : String) (r : Except CallError Json) :
    (HandlerEnd.ofOutcome .polled (.ofAttempt (.ok (.ofResult r)))).answer method =
      .ok (attributed method r) := by
  cases r <;> rfl

variable [PatternReader]

theorem queryRecords_keyFilter (id : Json) (records : List Json) :
    queryRecords records [s.keyFilter id] o = o.answer (s.withKey id records) := by
  have hread : Filter.listOfJson [s.keyFilter id] = .ok [.compare s.primaryKey .eq id] := by
    simp only [keyFilter, Filter.listOfJson, Filter.ofJson]
    rfl
  have hmatching : matchingRecords [.compare s.primaryKey .eq id] records =
      s.withKey id records := by
    simp [matchingRecords, withKey, Filter.holdsAll, Filter.holds, Operator.holds]
  rw [queryRecords, hread]
  exact congrArg o.answer hmatching

theorem answers_named (id : Json) (records : List Json) :
    s.Answers id o (.ok (.ok records)) (attributed s!"{s.space}.get_instance"
      (s.named id (queryRecords records [s.keyFilter id] { o with get := true }))) := by
  rw [queryRecords_keyFilter]
  unfold QueryOptions.answer
  -- a count comes before the only record, although the call has set `get`
  cases hcount : o.count with
  | true => exact .counted hcount
  | false =>
    cases hfound : s.withKey id records with
    | nil => exact .missing hcount hfound
    | cons record rest =>
      cases rest with
      | nil =>
        have hproject : QueryOptions.project { o with get := true } record =
            if o.select = [] then record else selectFields record o.select := by
          simp only [QueryOptions.project, List.isEmpty_iff]
        have hanswer := Answers.found hcount hfound
        rw [← hproject] at hanswer
        exact hanswer
      | cons other more =>
        have hlength : 1 < (s.withKey id records).length := by
          rw [hfound, List.length_cons, List.length_cons]
          omega
        have hanswer := Answers.several hcount hlength
        rw [hfound] at hanswer
        exact hanswer

def getInstance (s : CrudService) : Method where
  name := s!"{s.space}.get_instance"
  kind := .getInstance
  accepts := [s.idParam, queryOptionsParam]
  body := fun context args => s.runGetInstance context args

variable {context : CallContext} {tr : Trace}

theorem query_eq (filters : List Json) : s.query context filters o =
    s.entries context >>= fun found =>
      pure (found.bind fun records => queryRecords records filters o) := by
  unfold query
  congr 1
  funext found
  cases found <;> rfl

theorem runGetInstance_eq : s.runGetInstance context [.int n, o.toJson] =
    s.query context [s.keyFilter (.int n)] { o with get := true } >>= fun result =>
      pure (.ofResult (s.named (.int n) result)) := by
  have hoptions : queryOptionsOf (argument [.int n, o.toJson] 1) = .ok o :=
    queryOptionsOf_toJson o
  rw [runGetInstance, hoptions]
  rfl

def instanceEnd (s : CrudService) (id : Json) (o : QueryOptions)
    (listing : Except PanicPayload (Except CallError (List Json))) : HandlerEnd :=
  .ofOutcome .polled (.ofAttempt (listing.map fun found => .ofResult (s.named id
    (found.bind fun records => queryRecords records [s.keyFilter id] { o with get := true }))))

theorem handlerEnds_getInstance {h : HandlerEnd} :
    HandlerEnds s.getInstance context [.int n, o.toJson] tr h ↔
      ∃ listing, (s.entries context).Runs tr listing ∧ h = s.instanceEnd (.int n) o listing := by
  have hbody : ∀ args, (s.getInstance.body context args).run = s.runGetInstance context args :=
    fun _ => rfl
  rw [handlerEnds_iff rfl rfl, hbody, runGetInstance_eq, query_eq]
  constructor
  · rintro ⟨_, hrun, rfl⟩
    obtain ⟨_, hquery, rfl⟩ := runs_map.mp hrun
    obtain ⟨listing, hentries, rfl⟩ := runs_map.mp hquery
    exact ⟨listing, hentries, by cases listing <;> rfl⟩
  · rintro ⟨listing, hentries, rfl⟩
    exact ⟨_, runs_map.mpr ⟨_, runs_map.mpr ⟨listing, hentries, rfl⟩, rfl⟩,
      by cases listing <;> rfl⟩

theorem exists_answer (s : CrudService) (id : Json) (o : QueryOptions)
    (listing : Except PanicPayload (Except CallError (List Json))) :
    ∃ answer, s.Answers id o listing answer ∧
      (s.instanceEnd id o listing).answer s.getInstance.name = .ok answer := by
  cases listing with
  | error p => exact ⟨_, .panicked p, rfl⟩
  | ok found =>
    refine ⟨_, ?_, answer_ofResult _ _⟩
    cases found with
    | error e => exact .unlisted e
    | ok records => exact answers_named id records

end CrudService

/-- Every method of the service is registered under its name. -/
def Registry.Serves [PatternReader] (r : Registry) (s : CrudService) : Prop :=
  ∀ m ∈ s.methods,
    r.method? s!"{s.space}.{m.name}" = some { m with name := s!"{s.space}.{m.name}" }

theorem Registry.Serves.getInstance [PatternReader] {r : Registry} {s : CrudService}
    (h : r.Serves s) :
    r.method? s.getInstance.name = some s.getInstance := by
  have hname : toString s.space ++ toString "." ++ toString "get_instance" =
      s.getInstance.name := String.append_assoc ..
  have hfound := h { s.getInstance with name := "get_instance" } (.tail _ (.head _))
  rw [hname] at hfound
  exact hfound

theorem Registry.serves_addService [PatternReader] {b b' : Builder} {s : CrudService}
    (h : b.addService s.space s.methods = (b', none)) : b'.registry.Serves s :=
  fun _ => Builder.method?_addService h

/-- A call for a record is answered with the only record that has the key or fails, unless the
options ask for a count: then it is answered with the number of the records that have the key. -/
theorem instance_answered_unless_counted [PatternReader] {x : Exchange} {s : CrudService}
    (hserves : x.registry.Serves s) (hid : s.idParam = (Param.int "id").require)
    {args cleaned : List Json}
    (hclean : Accepts.clean [s.idParam, queryOptionsParam] args = .ok cleaned) :
    ∃ (n : Int) (o : QueryOptions), cleaned = [.int n, o.toJson] ∧
      (∀ k : Int, args[0]? = some (.int k) → k = n) ∧
      (o.count = true ↔ (args[1]?.bind fun v => v.get? "count") = some (.bool true)) ∧
      (∀ tr e, (x.call s!"{s.space}.get_instance" args).Runs tr e →
        ∃ token entries listing answer, (s.entries { token }).Runs entries listing ∧
          entries <:+: tr ∧ s.Answers (.int n) o listing answer ∧ e = .ok answer) ∧
      ∀ token entries listing, (s.entries { token }).Runs entries listing →
        ∃ tr answer, (x.call s!"{s.space}.get_instance" args).Runs tr (.ok answer) ∧
          entries <:+: tr ∧ s.Answers (.int n) o listing answer := by
  obtain ⟨n, o, rfl, hn, hcount⟩ := CrudService.asked_of_clean hid hclean
  have hinfix : ∀ {token trh h}, trh <:+: Exchange.callTrace s.getInstance args none token trh h :=
    fun {token trh h} => ⟨[_, _], h.epilogue s.getInstance.name args, rfl⟩
  refine ⟨n, o, rfl, hn, hcount, fun tr e hrun => ?_, fun token entries listing hentries => ?_⟩
  · obtain ⟨token, trh, h, hends, rfl, rfl⟩ :=
      (Exchange.runs_call hserves.getInstance rfl hclean).mp hrun
    obtain ⟨listing, hentries, rfl⟩ := CrudService.handlerEnds_getInstance.mp hends
    obtain ⟨answer, hanswer, heq⟩ := s.exists_answer (.int n) o listing
    exact ⟨token, trh, listing, answer, hentries, hinfix, hanswer, heq⟩
  · obtain ⟨answer, hanswer, heq⟩ := s.exists_answer (.int n) o listing
    have hends : HandlerEnds s.getInstance { token } [.int n, o.toJson] entries
        (s.instanceEnd (.int n) o listing) :=
      CrudService.handlerEnds_getInstance.mpr ⟨listing, hentries, rfl⟩
    exact ⟨_, answer, (Exchange.runs_call hserves.getInstance rfl hclean).mpr
      ⟨token, entries, _, hends, rfl, heq.symm⟩, hinfix, hanswer⟩

-- no filter below has a pattern, and any engine would do
attribute [local instance] PatternReader.plain

def userService : CrudService :=
  ({ space := "user", createSchema := .dict { name := "user_create" } [.str "name"] false } :
    ShelfOptions).service 0

def userExchange : Exchange where
  registry := (({} : Builder).addService "user" userService.methods).1.registry

theorem serves_userService : userExchange.registry.Serves userService :=
  @Registry.serves_addService _ {} _ userService rfl

def users : List Json :=
  [.obj [("id", .nat 2), ("name", .str "a")], .obj [("name", .str "b")]]

theorem runs_users (context : CallContext) : (userService.entries context).Runs
    [⟨.readShelf 0, ⟨users, 3⟩⟩] (.ok (.ok users)) :=
  .inr ⟨(⟨users, 3⟩ : Shelf), [], rfl, rfl, rfl⟩

theorem withKey_users (n : Int) : userService.withKey (.int n) users =
    if (Json.nat 2).equals (.int n) then [.obj [("id", .nat 2), ("name", .str "a")]] else [] := by
  have hkey : userService.primaryKey = "id" := rfl
  have hfirst : (Json.obj [("id", .nat 2), ("name", .str "a")]).atPath "id" = .nat 2 := rfl
  have hsecond : ((Json.obj [("name", .str "b")]).atPath "id").equals (.int n) = false := rfl
  simp only [CrudService.withKey, hkey, users, List.filter_cons, List.filter_nil, hfirst, hsecond,
    Bool.false_eq_true, if_false]

/-- The name of the only user with a key is told. -/
theorem instance_answered_among_users :
    userExchange.registry.Serves userService ∧
      userService.idParam = (Param.int "id").require ∧
      Accepts.clean [userService.idParam, queryOptionsParam]
        [.int 2, .obj [("select", .arr [.str "name"])]] =
          .ok [.int 2, ({ select := ["name"] } : QueryOptions).toJson] ∧
      ∃ tr, (userExchange.call "user.get_instance"
        [.int 2, .obj [("select", .arr [.str "name"])]]).Runs tr
          (.ok (.ok (.obj [("name", .str "a")]))) := by
  have hclean : Accepts.clean [userService.idParam, queryOptionsParam]
      [.int 2, .obj [("select", .arr [.str "name"])]] =
        .ok [.int 2, ({ select := ["name"] } : QueryOptions).toJson] := by rfl
  obtain ⟨n, o, hcleaned, hn, hcount, -, hanswered⟩ :=
    instance_answered_unless_counted serves_userService rfl hclean
  cases hn 2 rfl
  cases QueryOptions.toJson_injective (List.cons.inj (List.cons.inj hcleaned).2).1
  obtain ⟨tr, answer, hrun, -, hanswer⟩ := hanswered (.root 0) _ _ (runs_users _)
  have hequals : (Json.nat 2).equals (.int 2) = true := beq_self_eq_true _
  have hfound := withKey_users 2
  rw [hequals, if_pos rfl] at hfound
  refine ⟨serves_userService, rfl, hclean, tr, ?_⟩
  cases hanswer with
  | found _ h =>
    cases hfound.symm.trans h
    exact hrun
  | missing _ h => cases hfound.symm.trans h
  | several _ h =>
    rw [hfound] at h
    cases Nat.lt_irrefl 1 h
  | counted h => cases h

/-- Asked for a user whom nobody knows, the service tells a number all the same. -/
theorem missing_user_counted :
    userService.withKey (.int 9) users = [] ∧
      (userExchange.call "user.get_instance" [.int 9, .obj [("count", .bool true)]]).Runs
        [⟨.newToken none, .root 0⟩, ⟨.log ⟨.debug, "Calling user.get_instance"⟩, ()⟩,
          ⟨.readShelf 0, ⟨users, 3⟩⟩] (.ok (.ok (.nat 0))) := by
  have hnone : userService.withKey (.int 9) users = [] := by
    have hequals : (Json.nat 2).equals (.int 9) = false := by decide +kernel
    rw [withKey_users, hequals]
    rfl
  have hclean : Accepts.clean [userService.idParam, queryOptionsParam]
      [.int 9, .obj [("count", .bool true)]] =
        .ok [.int 9, ({ count := true } : QueryOptions).toJson] := by rfl
  have hend : userService.instanceEnd (.int 9) { count := true } (.ok (.ok users)) =
      .ended (.ok (.nat 0)) := by
    have hquery := CrudService.queryRecords_keyFilter (s := userService)
      (o := { count := true, get := true }) (.int 9) users
    rw [hnone] at hquery
    simp only [CrudService.instanceEnd, Except.map, Except.bind, hquery]
    rfl
  have hends : HandlerEnds userService.getInstance { token := .root 0 }
      [.int 9, ({ count := true } : QueryOptions).toJson] [⟨.readShelf 0, ⟨users, 3⟩⟩]
      (.ended (.ok (.nat 0))) :=
    CrudService.handlerEnds_getInstance.mpr ⟨_, runs_users _, hend.symm⟩
  exact ⟨hnone, (Exchange.runs_call serves_userService.getInstance rfl hclean).mpr
    ⟨.root 0, _, _, hends, rfl, rfl⟩⟩

end Switchboard
