import Mathlib.Data.Set.List
import Switchboard.Proofs.Schema.Conformance
import Switchboard.Query.Run

namespace Switchboard

theorem unitsOfRank_pos {r : Nat} (h : 0 < r) : 0 < unitsOfRank r := by
  unfold unitsOfRank
  dsimp only
  split
  next => exact h
  next => exact Nat.mul_pos (Nat.add_pos_left (Nat.pow_pos (by decide)) _) (Nat.pow_pos (by decide))

theorem rankOfUnits_pos {n : Nat} (h : 0 < n) : 0 < rankOfUnits (n * unitsPerOne) 1 := by
  -- stated for any exponent, since 2^1074 is not to be evaluated
  have hpow : ∀ k, 53 ≤ k → 2 ^ 53 ≤ Nat.pow 2 k := fun _ => Nat.pow_le_pow_right (by decide)
  have hone : 2 ^ 53 ≤ unitsPerOne := by
    unfold unitsPerOne
    exact hpow 1074 (by decide)
  have hunits : 2 ^ 53 ≤ n * unitsPerOne := hone.trans (Nat.le_mul_of_pos_left _ h)
  have hlog : 53 ≤ (n * unitsPerOne).log2 :=
    (Nat.le_log2 (Nat.pos_iff_ne_zero.mp (Nat.lt_of_lt_of_le (by decide) hunits))).mpr hunits
  unfold rankOfUnits
  rw [Nat.div_one]
  exact Nat.add_pos_left (Nat.mul_pos (Nat.sub_pos_of_lt hlog) (Nat.pow_pos (by decide))) _

theorem unitsOfInt_nonneg_iff {n : Int} : 0 ≤ unitsOfInt n ↔ 0 ≤ n := by
  unfold unitsOfInt
  dsimp only
  split
  next hneg =>
    have hpos := unitsOfRank_pos (rankOfUnits_pos (Int.natAbs_pos.mpr (Int.ne_of_lt hneg)))
    omega
  next => omega

theorem Validator.accepts_notNegative_iff {n : Int} :
    notNegative.accepts (.int n) ↔ 0 ≤ n := by
  have hzero : Double.zero.units = 0 := by decide
  rw [← unitsOfInt_nonneg_iff]
  show rangeViolation? (some .zero) none (unitsOfInt n) = none ↔ _
  simp [rangeViolation?, hzero]

namespace QueryOptions

variable {o : QueryOptions}

theorem toJson_eq (o : QueryOptions) : o.toJson = .obj [("count", .bool o.count),
    ("get", .bool o.get), ("limit", .nat o.limit), ("offset", .nat o.offset),
    ("order_by", .arr (o.orderBy.map .str)), ("select", .arr (o.select.map .str))] := by
  simp only [toJson, Json.ofFields, Fields.ofList, Fields.insertAll, List.foldl_cons,
    List.foldl_nil, Fields.insert, String.reduceLT, String.reduceEq, if_true, if_false]

theorem word_nat (wanted : String) (n : Nat) : Decode.word wanted (.nat n) = .ok n := by
  simp [Decode.word, Json.nat, Json.int]

theorem list_strings (texts : List String) :
    Decode.list Decode.string (.arr (texts.map .str)) = .ok texts := by
  show (texts.map Json.str).mapM Decode.string = .ok texts
  induction texts with
  | nil => rfl
  | cons s rest ih =>
    rw [List.map_cons, List.mapM_cons, ih]
    rfl

theorem ofJson_toJson (o : QueryOptions) : ofJson o.toJson = .ok o := by
  have hrecord : o.toJson.isNull = false := by
    rw [toJson_eq]
    rfl
  rw [ofJson, hrecord, toJson_eq]
  simp only [ofRecord, Decode.record, Decode.Layout.setField, layout, List.foldlM_cons,
    List.foldlM_nil, List.lookup_cons, String.reduceBEq, BEq.rfl, Decode.bool, word_nat, list_strings]
  rfl

theorem toJson_injective {o' : QueryOptions} (h : o.toJson = o'.toJson) : o = o' := by
  have hread := ofJson_toJson o
  rw [h, ofJson_toJson] at hread
  exact (Except.ok.inj hread).symm

end QueryOptions

theorem queryOptionsOf_toJson (o : QueryOptions) : queryOptionsOf o.toJson = .ok o := by
  rw [queryOptionsOf, QueryOptions.ofJson_toJson]

namespace Param

variable {p : Param} {t : Traits} {attrs items : List Param} {extensible : Bool} {path : String}
  {fields cleaned : Fields} {value : Option Json} {v c : Json}

theorem clean_of_default {d : Json} (hd : p.traits.default = some d)
    (h : (clean p path value []).2 = []) : ∃ c, (clean p path value []).1 = some c := by
  cases value with
  | some v => exact clean_present h
  | none =>
    refine ⟨d, ?_⟩
    cases p <;>
    · simp only [traits] at hd
      simp only [clean, hd] at h ⊢
      split at h
      next => cases h
      next hrequired => rw [if_neg hrequired]

theorem fields_of_clean_dict {result : Option Json} (hrequired : t.required = false)
    (hnull : t.nullable = false) (hdefault : t.default = none)
    (h : clean (dict t attrs extensible) path value [] = (result, [])) :
    ∃ fields, (value = none ∧ fields = [] ∨ value = some (.obj fields)) ∧
      (cleanAttrs attrs path fields [] []).2 = [] ∧
      result = some (.obj (gather attrs extensible path fields)) := by
  cases value with
  | none =>
    simp only [clean, hrequired, hdefault, Bool.false_eq_true, if_false] at h
    refine ⟨[], .inl ⟨rfl, rfl⟩, congrArg Prod.snd h, ?_⟩
    rw [gather_nil]
    exact (congrArg Prod.fst h).symm
  | some v =>
    obtain ⟨c, hc⟩ := clean_present (congrArg Prod.snd h)
    cases (congrArg Prod.fst h).symm.trans hc
    by_cases hv : v = .null
    · subst hv
      cases hnull.symm.trans (clean_null_iff.mp h).2
    · obtain ⟨fields, rfl⟩ := obj_of_clean_dict hv h
      obtain ⟨hclean, -, rfl, -⟩ := clean_obj_iff.mp h
      exact ⟨fields, .inr rfl, hclean, rfl⟩

/-- Attributes that all have values are set in turn. -/
theorem cleanAttrs_of_values {values : List Json} (h : List.Forall₂ (fun p v =>
      clean p (joinPath path p.name) (fields.get? p.name) [] = (some v, [])) attrs values) :
    cleanAttrs attrs path fields cleaned [] =
      (cleaned.insertAll ((attrs.map name).zip values), []) := by
  induction h generalizing cleaned with
  | nil => rfl
  | cons hp _ ih =>
    simp only [cleanAttrs, hp]
    exact ih

theorem values_of_attrs (hwf : (dict t attrs extensible).WellFormed)
    (hdefaults : ∀ p ∈ attrs, p.traits.default.isSome = true)
    (hclean : (cleanAttrs attrs path fields [] []).2 = []) :
    ∃ values, List.Forall₂ (fun p v =>
      clean p (joinPath path p.name) (fields.get? p.name) [] = (some v, []) ∧ Conforms p v)
      attrs values := by
  cases hwf with | dict _ _ _ hattrs =>
  have hvalue : ∀ p ∈ attrs, ∃ v,
      clean p (joinPath path p.name) (fields.get? p.name) [] = (some v, []) ∧ Conforms p v := by
    intro p hp
    obtain ⟨d, hd⟩ := Option.isSome_iff_exists.mp (hdefaults p hp)
    have herrors := cleanAttrs_clean hclean hp
    obtain ⟨v, hv⟩ := clean_of_default hd herrors
    exact ⟨v, Prod.ext hv herrors, (hattrs p hp).conforms (Prod.ext hv herrors)⟩
  choose! value hvalue using hvalue
  exact ⟨attrs.map value, List.forall₂_map_right_iff.mpr (List.forall₂_same.mpr hvalue)⟩

theorem clean_flag {b : Bool} (hd : t.default = some (.bool false))
    (h : clean (scalar t .bool) path value [] = (some (.bool b), [])) :
    b = true ↔ value = some (.bool true) := by
  cases value with
  | none =>
    rcases clean_none h with hb | ⟨_, _, _, heq, -⟩
    · cases hd.symm.trans hb
      simp
    · cases heq
  | some v =>
    have hv : v ≠ .null := by
      rintro rfl
      cases (clean_null_iff.mp h).1
    have hcoerce := ((clean_scalar_iff hv).mp h).1
    cases v <;> simp [Scalar.coerce?] at hcoerce
    simp [hcoerce]

end Param

theorem Conforms.of_scalar {t : Traits} {type : Scalar} {v : Json}
    (h : Conforms (.scalar t type) v) (hnull : t.nullable = false) :
    type.Has v ∧ ∀ x ∈ t.validators, x.accepts v := by
  cases h with
  | null hnull' => cases hnull.symm.trans hnull'
  | scalar htype hvalid => exact ⟨htype, hvalid⟩

theorem Conforms.of_strings {t : Traits} {item : Traits} {v : Json}
    (h : Conforms (.list t [.scalar item .str]) v) (hnull : t.nullable = false)
    (hitem : item.nullable = false) : ∃ texts : List String, v = .arr (texts.map .str) := by
  cases h with
  | null hnull' => cases hnull.symm.trans hnull'
  | @list _ _ values hitems _ =>
    have hstrings : ∀ w ∈ values, w ∈ Set.range Json.str := by
      intro w hw
      cases hitems w hw with
      | typed hp h =>
        cases List.mem_singleton.mp hp
        obtain ⟨⟨s, rfl⟩, -⟩ := h.of_scalar hitem
        exact ⟨s, rfl⟩
    have hrange : values ∈ Set.range (List.map Json.str) := by
      rw [Set.range_list_map]
      exact hstrings
    obtain ⟨texts, rfl⟩ := hrange
    exact ⟨texts, rfl⟩

theorem Conforms.of_notNegative {t : Traits} {v : Json} (h : Conforms (.scalar t .int) v)
    (hnull : t.nullable = false) (hvalid : .notNegative ∈ t.validators) :
    ∃ n : Nat, v = .nat n := by
  obtain ⟨⟨n, rfl⟩, haccepts⟩ := h.of_scalar hnull
  have hn := Validator.accepts_notNegative_iff.mp (haccepts _ hvalid)
  exact ⟨n.toNat, by rw [Json.nat, Int.toNat_of_nonneg hn]⟩

theorem Param.keepsDefault_zero {t : Traits} (hd : t.default = some (.int 0))
    (hvalid : t.validators = [.notNegative]) : (Param.scalar t .int).KeepsDefault := by
  intro d hd'
  cases hd.symm.trans hd'
  refine (clean_scalar_iff (by simp [Json.int])).mpr ⟨rfl, fun x hx => ?_⟩
  rw [hvalid] at hx
  exact List.mem_singleton.mp hx ▸ Validator.accepts_notNegative_iff.mpr (Int.le_refl 0)

theorem wellFormed_queryOptionsParam : queryOptionsParam.WellFormed := by
  refine .dict nofun (fun _ _ => rfl) (by decide) fun p hp => ?_
  simp only [List.mem_cons, List.not_mem_nil, or_false] at hp
  rcases hp with rfl | rfl | rfl | rfl | rfl | rfl
  · exact .scalar fun d hd => by cases hd; rfl
  · exact .scalar fun d hd => by cases hd; rfl
  · refine .list (fun d hd => by cases hd; rfl) fun p hp => ?_
    exact List.mem_singleton.mp hp ▸ .scalar nofun
  · refine .list (fun d hd => by cases hd; rfl) fun p hp => ?_
    exact List.mem_singleton.mp hp ▸ .scalar nofun
  · exact .scalar (Param.keepsDefault_zero rfl rfl)
  · exact .scalar (Param.keepsDefault_zero rfl rfl)

/-- What the schema of options lets through are options, all written down; records are counted if it
is said so. -/
theorem options_of_clean {path : String} {value result : Option Json}
    (h : queryOptionsParam.clean path value [] = (result, [])) :
    ∃ o : QueryOptions, result = some o.toJson ∧
      (o.count = true ↔ (value.bind fun v => v.get? "count") = some (.bool true)) := by
  obtain ⟨fields, hvalue, hclean, rfl⟩ := Param.fields_of_clean_dict rfl rfl rfl h
  have hcount : (value.bind fun v => v.get? "count") = Fields.get? fields "count" := by
    rcases hvalue with ⟨rfl, rfl⟩ | rfl <;> rfl
  rw [hcount]
  obtain ⟨values, hvalues⟩ := Param.values_of_attrs wellFormed_queryOptionsParam (by decide) hclean
  rcases hvalues with _ | ⟨⟨hget, hget'⟩, _ | ⟨⟨hcount, hcount'⟩, _ | ⟨⟨horder, horder'⟩, _ |
    ⟨⟨hselect, hselect'⟩, _ | ⟨⟨hoffset, hoffset'⟩, _ | ⟨⟨hlimit, hlimit'⟩, _ | _⟩⟩⟩⟩⟩⟩
  obtain ⟨⟨get, rfl⟩, -⟩ := hget'.of_scalar rfl
  obtain ⟨⟨count, rfl⟩, -⟩ := hcount'.of_scalar rfl
  obtain ⟨orderBy, rfl⟩ := horder'.of_strings rfl rfl
  obtain ⟨select, rfl⟩ := hselect'.of_strings rfl rfl
  obtain ⟨offset, rfl⟩ := hoffset'.of_notNegative rfl (.head _)
  obtain ⟨limit, rfl⟩ := hlimit'.of_notNegative rfl (.head _)
  refine ⟨⟨get, count, orderBy, select, offset, limit⟩, ?_, Param.clean_flag rfl hcount⟩
  rw [Param.gather, Param.cleanAttrs_of_values (.cons hget (.cons hcount (.cons horder
    (.cons hselect (.cons hoffset (.cons hlimit .nil))))))]
  rfl

end Switchboard
