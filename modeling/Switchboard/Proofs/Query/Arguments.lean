import Switchboard.Plugins
import Switchboard.Proofs.Numbers.Comparisons
import Switchboard.Proofs.Query.Instances

namespace Switchboard

open Routine

theorem Validator.accepts_atLeast_iff {low : Option Double} {m n : Int}
    (hlow : Double.ofInt? m = low) (hsome : low.isSome = true) (hm : m.natAbs < 2 ^ 53) :
    (Validator.range low none).accepts (.int n) ↔ m ≤ n := by
  obtain ⟨d, rfl⟩ := Option.isSome_iff_exists.mp hsome
  rw [accepts_range_iff, ← (toldApart_of_small hm).units_le_iff, ← Double.units_of_ofInt? hlow]
  exact ⟨fun h => h.1 d rfl, fun h => ⟨fun d' hd' => Option.some.inj hd' ▸ h, nofun⟩⟩

/-- Texts and doubles give numbers of 63 bits, so that a whole number has 64 bits if it had them. -/
theorem lt_of_coerceInt? {v : Json} {n : Int} (h : coerceInt? v = some (.int n))
    (hword : ∀ k : Int, v = .int k → k < 2 ^ 64) : n < 2 ^ 64 := by
  have hpow : (Nat.pow 2 63 : Nat) = 9223372036854775808 := rfl
  cases v with
  | num number =>
    cases number with
    | int k =>
      cases h
      exact hword n rfl
    | float d =>
      obtain ⟨k, hk, heq⟩ := Option.map_eq_some_iff.mp h
      cases heq
      have hsmall := (Option.filter_eq_some_iff.mp hk).2
      rw [decide_eq_true_iff, hpow] at hsmall
      omega
  | str s =>
    obtain ⟨k, hk, heq⟩ := Option.map_eq_some_iff.mp h
    cases heq
    unfold intOfText? at hk
    dsimp only at hk
    rw [hpow] at hk
    split at hk
    next => cases hk
    next =>
      split at hk <;> split at hk <;> cases hk <;> omega
  | _ => cases h

namespace Param

variable {t : Traits} {path : String} {value : Option Json} {v : Json}

theorem word_of_clean (low : Nat) (hlow : low < 2 ^ 53)
    (hsome : (Double.ofInt? low).isSome = true)
    (hvalid : .range (Double.ofInt? low) none ∈ t.validators) (hnull : t.nullable = false)
    (hdefault : ∀ d, t.default = some d → ∃ n : Nat, d = .nat n ∧ low ≤ n ∧ n < 2 ^ 64)
    (hword : ∀ k : Int, value = some (.int k) → k < 2 ^ 64)
    (h : clean (scalar t .int) path value [] = (some v, [])) :
    ∃ n : Nat, v = .nat n ∧ low ≤ n ∧ (Json.nat n).asWord? = some n := by
  obtain ⟨n, hv, hle, hlt⟩ : ∃ n : Nat, v = .nat n ∧ low ≤ n ∧ n < 2 ^ 64 := by
    cases value with
    | none =>
      rcases clean_none h with hd | ⟨_, _, _, hdict, -⟩
      · exact hdefault v hd
      · cases hdict
    | some w =>
      have hw : w ≠ .null := by
        rintro rfl
        exact absurd (clean_null_iff.mp h).2 (by rw [traits, hnull]; decide)
      obtain ⟨hcoerce, haccepts⟩ := (clean_scalar_iff hw).mp h
      obtain ⟨k, rfl⟩ := Scalar.has_of_coerce? hw hcoerce
      obtain ⟨number, hnumber, heq⟩ := Option.map_eq_some_iff.mp hcoerce
      cases heq
      have hge := (Validator.accepts_atLeast_iff rfl hsome (by omega)).mp (haccepts _ hvalid)
      have hlt := lt_of_coerceInt? hnumber fun k hk => hword k (congrArg some hk)
      refine ⟨k.toNat, ?_, by omega, by omega⟩
      rw [Json.nat, Int.toNat_of_nonneg (by omega)]
  have hpow : Int.pow 2 64 = 2 ^ 64 := rfl
  refine ⟨n, hv, hle, ?_⟩
  simp only [Json.nat, Json.int, Json.asWord?, hpow]
  rw [if_pos (by omega), Int.toNat_natCast]

theorem clean_atLeast {low n : Int} (hlow : low.natAbs < 2 ^ 53)
    (hsome : (Double.ofInt? low).isSome = true)
    (hvalid : t.validators = [.range (Double.ofInt? low) none])
    (hv : coerceInt? v = some (.int n)) (hle : low ≤ n) :
    clean (scalar t .int) path (some v) [] = (some (.int n), []) := by
  have hnull : v ≠ .null := by
    rintro rfl
    cases hv
  refine (clean_scalar_iff hnull).mpr ⟨by rw [Scalar.coerce?, hv]; rfl, fun x hx => ?_⟩
  rw [hvalid] at hx
  exact List.mem_singleton.mp hx ▸ (Validator.accepts_atLeast_iff rfl hsome hlow).mpr hle

theorem clean_strings {item : Traits} (hvalid : t.validators = []) (hitem : item.validators = [])
    (texts : List String) : clean (list t [scalar item .str]) path (some (.arr (texts.map .str))) [] =
      (some (.arr (texts.map .str)), []) := by
  have hone : ∀ itemPath text, cleanItem [scalar item .str] itemPath (.str text) [] =
      (some (.str text), []) := fun itemPath text => by
    simp [cleanItem, clean, Scalar.coerce?, check, hitem]
  have hitems : ∀ i, cleanItems (cleanItem [scalar item .str]) path i (texts.map .str) [] =
      (texts.map .str, []) := by
    induction texts with
    | nil => intro i; rfl
    | cons text rest ih =>
      intro i
      simp only [List.map_cons, cleanItems, hone, ih]
      rfl
  rw [clean_arr, hitems]
  exact check_eq_iff.mpr ⟨rfl, rfl, by simp [hvalid]⟩

theorem clean_bool (hvalid : t.validators = []) (b : Bool) :
    clean (scalar t .bool) path (some (.bool b)) [] = (some (.bool b), []) :=
  (clean_scalar_iff (by simp)).mpr ⟨rfl, by simp [hvalid]⟩

theorem clean_notNegative (hvalid : t.validators = [.notNegative]) (n : Nat) :
    clean (scalar t .int) path (some (.nat n)) [] = (some (.nat n), []) := by
  refine (clean_scalar_iff (by simp [Json.nat, Json.int])).mpr ⟨rfl, fun x hx => ?_⟩
  rw [hvalid] at hx
  exact List.mem_singleton.mp hx ▸ Validator.accepts_notNegative_iff.mpr (Int.natCast_nonneg n)

end Param

theorem Accepts.clean_singleton {p : Param} {v c : Json}
    (h : p.clean p.name (some v) [] = (some c, [])) : Accepts.clean [p] [v] = .ok [c] := by
  simp [Accepts.clean, cleanEach, h, Json.ofOption]

/-- Options that are written down are clean. -/
theorem QueryOptions.clean_toJson (o : QueryOptions) (path : String) :
    queryOptionsParam.clean path (some o.toJson) [] = (some o.toJson, []) := by
  rw [toJson_eq]
  generalize hfields : [("count", Json.bool o.count), ("get", .bool o.get), ("limit", .nat o.limit),
    ("offset", .nat o.offset), ("order_by", .arr (o.orderBy.map .str)),
    ("select", .arr (o.select.map .str))] = fields
  have hget : ∀ key v, (fields.lookup key = some v) → Fields.get? fields key = some v :=
    fun _ _ h => h
  have hvalues : List.Forall₂ (fun p v =>
      Param.clean p (joinPath path p.name) (Fields.get? fields p.name) [] = (some v, []))
      [(Param.bool "get").withDefault (.bool false), (Param.bool "count").withDefault (.bool false),
        (Param.list { name := "order_by" } [.str "field"]).withDefault (.arr []),
        (Param.list { name := "select" } [.str "field"]).withDefault (.arr []),
        ((Param.int "offset").withDefault (.int 0)).withValidator .notNegative,
        ((Param.int "limit").withDefault (.int 0)).withValidator .notNegative]
      [.bool o.get, .bool o.count, .arr (o.orderBy.map .str), .arr (o.select.map .str),
        .nat o.offset, .nat o.limit] := by
    subst hfields
    refine .cons ?_ (.cons ?_ (.cons ?_ (.cons ?_ (.cons ?_ (.cons ?_ .nil)))))
    · exact Param.clean_bool rfl o.get
    · exact Param.clean_bool rfl o.count
    · exact Param.clean_strings rfl rfl o.orderBy
    · exact Param.clean_strings rfl rfl o.select
    · exact Param.clean_notNegative rfl o.offset
    · exact Param.clean_notNegative rfl o.limit
  refine Param.clean_obj_iff.mpr ⟨?_, fun _ f hf => ?_, ?_, nofun⟩
  · rw [Param.cleanAttrs_of_values hvalues]
  · subst hfields
    have hdeclared : ∀ key ∈ ["count", "get", "limit", "offset", "order_by", "select"],
        key ∈ ["get", "count", "order_by", "select", "offset", "limit"] := by decide
    exact List.mem_map.mp (hdeclared f.1 (List.mem_map_of_mem hf))
  · rw [Param.gather, Param.cleanAttrs_of_values hvalues, ← hfields, ← toJson_eq]
    rfl

theorem filters_of_clean {path : String} {value result : Option Json}
    (h : queryFiltersParam.clean path value [] = (result, [])) :
    ∃ filters, result = some (.arr filters) := by
  obtain ⟨v, hv⟩ := Param.clean_of_default rfl (congrArg Prod.snd h)
  cases (congrArg Prod.fst h).symm.trans hv
  have hwf : queryFiltersParam.WellFormed := .list (fun d hd => by cases hd; rfl) nofun
  cases hwf.conforms h with
  | null hnull => cases hnull
  | list => exact ⟨_, rfl⟩

/-- Wherever options stand among the arguments, what is left of them is options written down. -/
theorem options_at_of_clean {params : Accepts} {args cleaned : List Json} {i : Nat}
    (h : Accepts.clean params args = .ok cleaned) (hi : params[i]? = some queryOptionsParam) :
    ∃ o : QueryOptions, cleaned[i]? = some o.toJson := by
  have heach := Accepts.cleanEach_of_clean h
  obtain ⟨value, hvalue, hcleaned⟩ := Accepts.cleanEach_clean (congrArg Prod.snd heach) hi
  obtain ⟨o, rfl, -⟩ := options_of_clean hvalue
  rw [heach] at hcleaned
  exact ⟨o, hcleaned⟩

theorem arguments_of_clean {p : Param} {args cleaned : List Json}
    (h : Accepts.clean [p, queryOptionsParam] args = .ok cleaned) :
    ∃ (value : Option Json) (o : QueryOptions), p.clean p.name args[0]? [] = (value, []) ∧
      cleaned = [.ofOption value, o.toJson] := by
  have heach := Accepts.cleanEach_of_clean h
  have hlength := Accepts.length_of_clean h
  obtain ⟨value, hvalue, hfirst⟩ :=
    Accepts.cleanEach_clean (i := 0) (congrArg Prod.snd heach) rfl
  obtain ⟨o, hsecond⟩ := options_at_of_clean (i := 1) h rfl
  rw [heach] at hfirst
  obtain ⟨first, second, rfl⟩ := List.length_eq_two.mp hlength
  cases hfirst
  cases hsecond
  exact ⟨value, o, hvalue, rfl⟩

theorem CrudService.runQuery_eq [PatternReader] (s : CrudService) (context : CallContext)
    (filters : List Json) (o : QueryOptions) : s.runQuery context [.arr filters, o.toJson] =
      s.query context filters o >>= fun result => pure (.ofResult result) := by
  have hoptions : queryOptionsOf (argument [.arr filters, o.toJson] 1) = .ok o :=
    queryOptionsOf_toJson o
  rw [runQuery, hoptions]
  rfl

theorem CrudService.runGetInstance_toJson [PatternReader] (s : CrudService) (context : CallContext)
    (id : Json) (o : QueryOptions) : s.runGetInstance context [id, o.toJson] =
      s.query context [s.keyFilter id] { o with get := true } >>= fun result =>
        pure (.ofResult (s.named id result)) := by
  have hoptions : queryOptionsOf (argument [id, o.toJson] 1) = .ok o := queryOptionsOf_toJson o
  rw [runGetInstance, hoptions]
  rfl

theorem Core.queryJobs_eq [PatternReader] (filters : List Json) (o : QueryOptions) :
    queryJobs [.arr filters, o.toJson] =
      Routine.ask (.ask .list) >>= fun jobs : Except CallError (List JobSnapshot) =>
        pure (jobs.bind fun jobs => queryRecords (jobs.map JobSnapshot.toJson) filters o) := by
  have hoptions : queryOptionsOf (([Json.arr filters, o.toJson][1]?).getD .null) = .ok o :=
    queryOptionsOf_toJson o
  rw [queryJobs, hoptions]
  rfl

namespace Reporting.Realtime

theorem wellFormed_params : params.WellFormed := by
  refine .dict nofun (fun _ _ => rfl) (by decide) fun p hp => ?_
  cases List.mem_singleton.mp hp
  refine .scalar fun d hd => ?_
  cases hd
  exact Param.clean_atLeast (by decide) (by decide +kernel) rfl rfl (Int.le_refl 2)

theorem clean_interval {v : Json} {n : Int} (hv : coerceInt? v = some (.int n)) (hle : 2 ≤ n)
    (path : String) : params.clean path (some (.obj [("interval", v)])) [] =
      (some (.obj [("interval", .int n)]), []) := by
  have hvalues : List.Forall₂ (fun p c =>
      Param.clean p (joinPath path p.name) (Fields.get? [("interval", v)] p.name) [] = (some c, []))
      [((Param.int "interval").withDefault (.nat defaultInterval)).withValidator
        (.range (Double.ofInt? defaultInterval) none)] [.int n] :=
    .cons (Param.clean_atLeast (by decide) (by decide +kernel) rfl hv hle) .nil
  refine Param.clean_obj_iff.mpr ⟨?_, fun _ f hf => ?_, ?_, nofun⟩
  · rw [Param.cleanAttrs_of_values hvalues]
  · cases List.mem_singleton.mp hf
    exact ⟨_, .head _, rfl⟩
  · rw [Param.gather, Param.cleanAttrs_of_values hvalues]
    rfl

theorem interval_of_clean {path : String} {value result : Option Json}
    (hword : ∀ k : Int, (value.bind fun v => v.get? "interval") = some (.int k) → k < 2 ^ 64)
    (h : params.clean path value [] = (result, [])) :
    ∃ n : Nat, result = some (.obj [("interval", .nat n)]) ∧ 2 ≤ n ∧
      (Json.nat n).asWord? = some n := by
  obtain ⟨fields, hvalue, hclean, rfl⟩ := Param.fields_of_clean_dict rfl rfl rfl h
  have hget : (value.bind fun v => v.get? "interval") = Fields.get? fields "interval" := by
    rcases hvalue with ⟨rfl, rfl⟩ | rfl <;> rfl
  obtain ⟨values, hvalues⟩ := Param.values_of_attrs wellFormed_params (by decide) hclean
  rcases hvalues with _ | ⟨⟨hinterval, -⟩, _ | _⟩
  obtain ⟨n, rfl, hle, hread⟩ := Param.word_of_clean 2 (by decide) (by decide +kernel)
    (.head _) rfl (fun d hd => ⟨2, (Option.some.inj hd).symm, by decide, by decide⟩)
    (fun k hk => hword k (hget.trans hk)) hinterval
  refine ⟨n, ?_, hle, hread⟩
  rw [Param.gather, Param.cleanAttrs_of_values (.cons hinterval .nil)]
  rfl

theorem interval_ofArgs {n : Nat} (h : (Json.nat n).asWord? = some n) :
    (ofArgs (.obj [("interval", .nat n)])).interval = n := by
  have hget : (Json.obj [("interval", .nat n)]).get? "interval" = some (.nat n) := rfl
  unfold ofArgs
  rw [hget, Option.bind_some, h, Option.getD_some]

end Reporting.Realtime

namespace Core

theorem jobId_of_clean {args cleaned : List Json}
    (hword : ∀ k : Int, args[0]? = some (.int k) → k < 2 ^ 64)
    (h : Accepts.clean jobAbort.accepts args = .ok cleaned) :
    ∃ n : Nat, cleaned = [.nat n] ∧ 1 ≤ n ∧ (Json.nat n).asWord? = some n := by
  have heach := Accepts.cleanEach_of_clean h
  have hlength := Accepts.length_of_clean h
  obtain ⟨value, hvalue, hfirst⟩ :=
    Accepts.cleanEach_clean (i := 0) (congrArg Prod.snd heach) rfl
  rw [heach] at hfirst
  obtain ⟨first, rfl⟩ := List.length_eq_one_iff.mp hlength
  obtain ⟨v, rfl⟩ : ∃ v, value = some v := by
    cases hargs : args[0]? with
    | none =>
      rw [hargs] at hvalue
      exact absurd (congrArg Prod.snd hvalue) (Param.clean_required rfl)
    | some w =>
      rw [hargs] at hvalue
      obtain ⟨v, hv⟩ := Param.clean_present (congrArg Prod.snd hvalue)
      exact ⟨v, (congrArg Prod.fst hvalue).symm.trans hv⟩
  obtain ⟨n, rfl, hle, hread⟩ := Param.word_of_clean 1 (by decide) (by decide +kernel)
    (.head _) rfl (fun d hd => by cases hd) hword hvalue
  cases hfirst
  exact ⟨n, rfl, hle, hread⟩

theorem clean_jobId {v : Json} {n : Int} (hv : coerceInt? v = some (.int n)) (hle : 1 ≤ n) :
    Accepts.clean jobAbort.accepts [v] = .ok [.int n] :=
  Accepts.clean_singleton
    (Param.clean_atLeast (by decide) (by decide +kernel) rfl hv hle)

theorem jobId_nat {n : Nat} (h : (Json.nat n).asWord? = some n) : jobId [.nat n] = n := by
  rw [jobId, List.head?_cons, Option.bind_some, h, Option.getD_some]

end Core

/-- What the schemas of arguments let through is read as it stands. Options are read from every
clean value, and every options are written down cleanly, so queries never complain of their options;
intervals and numbers of jobs are those that were cleaned, where numbers of 64 bits are given. -/
theorem cleaned_arguments_are_read [PatternReader] :
    (∀ path value result, queryOptionsParam.clean path value [] = (result, []) →
      ∃ o : QueryOptions, result = some o.toJson ∧ QueryOptions.ofJson o.toJson = .ok o) ∧
    (∀ (params : Accepts) args cleaned (i : Nat), Accepts.clean params args = .ok cleaned →
      params[i]? = some queryOptionsParam →
      ∃ o : QueryOptions, cleaned[i]? = some o.toJson ∧ queryOptionsOf o.toJson = .ok o) ∧
    (∀ args cleaned, Accepts.clean [queryFiltersParam, queryOptionsParam] args = .ok cleaned →
      ∃ (filters : List Json) (o : QueryOptions), cleaned = [.arr filters, o.toJson] ∧
        (∀ (s : CrudService) context, s.runQuery context cleaned =
          s.query context filters o >>= fun result => pure (.ofResult result)) ∧
        Core.queryJobs cleaned =
          Routine.ask (.ask .list) >>= fun jobs : Except CallError (List JobSnapshot) =>
            pure (jobs.bind fun jobs => queryRecords (jobs.map JobSnapshot.toJson) filters o)) ∧
    (∀ (s : CrudService) args cleaned,
      Accepts.clean [s.idParam, queryOptionsParam] args = .ok cleaned →
      ∃ (id : Json) (o : QueryOptions), cleaned = [id, o.toJson] ∧
        ∀ context, s.runGetInstance context cleaned =
          s.query context [s.keyFilter id] { o with get := true } >>= fun result =>
            pure (.ofResult (s.named id result))) ∧
    (∀ (o : QueryOptions) path,
      queryOptionsParam.clean path (some o.toJson) [] = (some o.toJson, [])) ∧
    (∀ path value result,
      (∀ k : Int, (value.bind fun v => v.get? "interval") = some (.int k) → k < 2 ^ 64) →
      Reporting.Realtime.params.clean path value [] = (result, []) →
      ∃ n : Nat, result = some (.obj [("interval", .nat n)]) ∧ 2 ≤ n ∧
        (Json.nat n).asWord? = some n ∧ (Reporting.Realtime.ofArgs (result.getD .null)).interval = n) ∧
    (∀ args cleaned, (∀ k : Int, args[0]? = some (.int k) → k < 2 ^ 64) →
      Accepts.clean Core.jobAbort.accepts args = .ok cleaned →
      ∃ n : Nat, cleaned = [.nat n] ∧ 1 ≤ n ∧ (Json.nat n).asWord? = some n ∧
        ∀ context, Core.jobAbort.body context cleaned = (Exchange.abortJob n).outcome) := by
  refine ⟨fun path value result h => ?_, fun params args cleaned i h hi => ?_,
    fun args cleaned h => ?_, fun s args cleaned h => ?_, QueryOptions.clean_toJson,
    fun path value result hword h => ?_, fun args cleaned hword h => ?_⟩
  · obtain ⟨o, ho, -⟩ := options_of_clean h
    exact ⟨o, ho, o.ofJson_toJson⟩
  · obtain ⟨o, ho⟩ := options_at_of_clean h hi
    exact ⟨o, ho, queryOptionsOf_toJson o⟩
  · obtain ⟨value, o, hvalue, rfl⟩ := arguments_of_clean h
    obtain ⟨filters, rfl⟩ := filters_of_clean hvalue
    exact ⟨filters, o, rfl, fun s context => s.runQuery_eq context filters o,
      Core.queryJobs_eq filters o⟩
  · obtain ⟨value, o, -, rfl⟩ := arguments_of_clean h
    exact ⟨.ofOption value, o, rfl, fun context => s.runGetInstance_toJson context _ o⟩
  · obtain ⟨n, rfl, hle, hread⟩ := Reporting.Realtime.interval_of_clean hword h
    exact ⟨n, rfl, hle, hread, Reporting.Realtime.interval_ofArgs hread⟩
  · obtain ⟨n, rfl, hle, hread⟩ := Core.jobId_of_clean hword h
    refine ⟨n, rfl, hle, hread, fun context => ?_⟩
    simp only [Core.jobAbort, Core.jobId_nat hread]

/-- An interval of five and a job 7 that are given as texts: the source has that interval, and that
job is aborted. -/
theorem texts_are_read_as_numbers :
    Reporting.Realtime.params.clean "" (some (.obj [("interval", .str "5")])) [] =
        (some (.obj [("interval", .nat 5)]), []) ∧
      (Reporting.Realtime.ofArgs (.obj [("interval", .nat 5)])).interval = 5 ∧
      Accepts.clean Core.jobAbort.accepts [.str " 7"] = .ok [.nat 7] ∧
      Core.jobAbort.body ⟨.root 0, none⟩ [.nat 7] = (Exchange.abortJob 7).outcome := by
  obtain ⟨-, -, -, -, -, hread, habort⟩ := @cleaned_arguments_are_read .plain
  have hinterval := Reporting.Realtime.clean_interval (v := .str "5") (n := 5) rfl (by decide) ""
  have hid := Core.clean_jobId (v := .str " 7") (n := 7) rfl (by decide)
  obtain ⟨_, hfive, -, -, heq⟩ := hread _ _ _ (fun _ h => by cases h) hinterval
  obtain ⟨_, hseven, -, -, hbody⟩ := habort _ _ (fun _ h => by cases h) hid
  cases hfive
  cases hseven
  exact ⟨hinterval, heq, hid, hbody _⟩

end Switchboard
