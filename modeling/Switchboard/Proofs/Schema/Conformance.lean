import Switchboard.Proofs.Schema.Addresses
import Switchboard.Proofs.Schema.Updates

namespace Switchboard

namespace Scalar

def Has : Scalar → Json → Prop
  | any, v => v ≠ .null
  | bool, v => ∃ b, v = .bool b
  | int, v => ∃ n, v = .int n
  | float, v => ∃ n, v = .num n
  | str, v => ∃ s, v = .str s
  | ipAddress, v => ∃ a : IpAddress, IpAddress.ofText? a.text = some a ∧ v = .str a.text

theorem has_of_coerce? {type : Scalar} {v c : Json} (hv : v ≠ .null)
    (h : type.coerce? v = some c) : type.Has c := by
  cases type with
  | any =>
    cases h
    exact hv
  | bool =>
    cases v <;> simp [coerce?] at h
    exact ⟨_, h.symm⟩
  | int =>
    obtain ⟨n, hn, rfl⟩ := Option.map_eq_some_iff.mp h
    cases v with
    | num m =>
      cases m with
      | int i => exact ⟨i, congrArg Json.num (Option.some.inj hn).symm⟩
      | float d =>
        obtain ⟨i, -, rfl⟩ := Option.map_eq_some_iff.mp hn
        exact ⟨i, rfl⟩
    | str s =>
      obtain ⟨i, -, rfl⟩ := Option.map_eq_some_iff.mp hn
      exact ⟨i, rfl⟩
    | _ => cases hn
  | float =>
    obtain ⟨n, -, rfl⟩ := Option.map_eq_some_iff.mp h
    exact ⟨n, rfl⟩
  | str =>
    cases v with
    | str s => exact ⟨s, (Option.some.inj h).symm⟩
    | num n =>
      cases n with
      | int i => exact ⟨_, (Option.some.inj h).symm⟩
      | float d => cases h
    | _ => cases h
  | ipAddress =>
    cases v with
    | str s =>
      obtain ⟨a, ha, rfl⟩ := Option.map_eq_some_iff.mp h
      exact ⟨a, IpAddress.ofText?_text ha, rfl⟩
    | _ => cases h

end Scalar

mutual

/-- The value is as the schema wants it. -/
inductive Conforms : Param → Json → Prop where
  | null {p : Param} (h : p.traits.nullable = true) : Conforms p .null
  | scalar {t : Traits} {type : Scalar} {v : Json} (htype : type.Has v)
      (hvalid : ∀ x ∈ t.validators, x.accepts v) : Conforms (.scalar t type) v
  | dict {t : Traits} {attrs : List Param} {extensible : Bool} {fields : Fields}
      (hrequired : ∀ p ∈ attrs, p.traits.required = true → fields.contains p.name = true)
      (hdeclared : ∀ p ∈ attrs, ∀ v, fields.get? p.name = some v → Conforms p v)
      (hclosed : extensible = false → ∀ f ∈ fields, ∃ p ∈ attrs, p.name = f.1)
      (hvalid : ∀ x ∈ t.validators, x.accepts (.obj fields)) :
      Conforms (.dict t attrs extensible) (.obj fields)
  | list {t : Traits} {items : List Param} {values : List Json}
      (hitems : ∀ v ∈ values, ConformsToSome items v)
      (hvalid : ∀ x ∈ t.validators, x.accepts (.arr values)) :
      Conforms (.list t items) (.arr values)

inductive ConformsToSome : List Param → Json → Prop where
  | free (v : Json) : ConformsToSome [] v
  | typed {items : List Param} {p : Param} {v : Json} (hp : p ∈ items) (h : Conforms p v) :
      ConformsToSome items v

end

namespace Param

variable {p : Param} {t : Traits} {attrs items : List Param} {extensible : Bool} {path : String}
  {fields : Fields} {v c : Json}

theorem clean_eq_iff {value : Option Json} {errors : FieldErrors} :
    p.clean path value errors = (some c, errors) ↔ p.clean path value [] = (some c, []) := by
  rw [clean_append, Prod.ext_iff, Prod.ext_iff]
  exact and_congr_right fun _ => List.append_right_eq_self

theorem check_eq_iff {found : FieldErrors} :
    check t path [] (some v, found) = (some c, []) ↔
      c = v ∧ found = [] ∧ ∀ x ∈ t.validators, x.accepts v := by
  cases found with
  | nil =>
    simp only [check, List.length_nil, if_true, List.nil_append, Prod.mk.injEq,
      Option.some.injEq, List.map_eq_nil_iff, List.filterMap_eq_nil_iff, true_and]
    exact ⟨fun h => ⟨h.1.symm, h.2⟩, fun h => ⟨h.1.symm, h.2⟩⟩
  | cons e rest => simp [check]

theorem clean_null_iff : clean p path (some .null) [] = (some c, []) ↔
    c = .null ∧ p.traits.nullable = true := by
  cases p <;>
  · simp only [clean, traits]
    split
    next h => simp [h, eq_comm]
    next h => simp [h]

theorem clean_scalar_eq {type : Scalar} (hv : v ≠ .null) :
    clean (scalar t type) path (some v) [] =
      match type.coerce? v with
      | some c => check t path [] (some c, [])
      | none => (none, [(Fault.notScalar type).at path]) := by
  cases v with
  | null => exact absurd rfl hv
  | _ =>
    simp only [clean]
    rfl

theorem clean_scalar_iff {type : Scalar} (hv : v ≠ .null) :
    clean (scalar t type) path (some v) [] = (some c, []) ↔
      type.coerce? v = some c ∧ ∀ x ∈ t.validators, x.accepts c := by
  rw [clean_scalar_eq hv]
  cases type.coerce? v with
  | none => simp
  | some w =>
    simp only [check_eq_iff, Option.some.injEq, true_and]
    exact ⟨fun ⟨heq, h⟩ => ⟨heq.symm, heq ▸ h⟩, fun ⟨heq, h⟩ => ⟨heq.symm, heq ▸ h⟩⟩

/-- The fields that an object comes to have, if there is no error. -/
def gather (attrs : List Param) (extensible : Bool) (path : String) (fields : Fields) : Fields :=
  let cleaned := (cleanAttrs attrs path fields [] []).1
  if extensible then
    cleaned.insertAll (fields.filter fun f => !attrs.any fun p => p.name == f.1)
  else cleaned

def unexpected (attrs : List Param) (extensible : Bool) (path : String) (fields : Fields) :
    FieldErrors :=
  if extensible then []
  else (fields.filter fun f => !attrs.any fun p => p.name == f.1).map fun f =>
    Fault.unexpected.at (joinPath path f.1)

theorem unexpected_eq_nil_iff : unexpected attrs extensible path fields = [] ↔
    (extensible = false → ∀ f ∈ fields, ∃ p ∈ attrs, p.name = f.1) := by
  cases extensible with
  | true => simp [unexpected]
  | false => simp [unexpected]

theorem clean_obj_eq : clean (dict t attrs extensible) path (some (.obj fields)) [] =
    check t path [] (some (.obj (gather attrs extensible path fields)),
      (cleanAttrs attrs path fields [] []).2 ++ unexpected attrs extensible path fields) := by
  cases extensible <;> simp [clean, cleanOthers, gather, unexpected]

theorem clean_obj_iff : clean (dict t attrs extensible) path (some (.obj fields)) [] =
      (some c, []) ↔
    (cleanAttrs attrs path fields [] []).2 = [] ∧
      (extensible = false → ∀ f ∈ fields, ∃ p ∈ attrs, p.name = f.1) ∧
      c = .obj (gather attrs extensible path fields) ∧ ∀ x ∈ t.validators, x.accepts c := by
  rw [clean_obj_eq, check_eq_iff, List.append_eq_nil_iff, unexpected_eq_nil_iff]
  constructor
  · rintro ⟨rfl, ⟨hattrs, hclosed⟩, hvalid⟩
    exact ⟨hattrs, hclosed, rfl, hvalid⟩
  · rintro ⟨hattrs, hclosed, rfl, hvalid⟩
    exact ⟨rfl, ⟨hattrs, hclosed⟩, hvalid⟩

theorem obj_of_clean_dict (hv : v ≠ .null)
    (h : clean (dict t attrs extensible) path (some v) [] = (some c, [])) :
    ∃ fields, v = .obj fields := by
  cases v with
  | null => exact absurd rfl hv
  | obj fields => exact ⟨fields, rfl⟩
  | _ => simp [clean] at h

theorem arr_of_clean_list (hv : v ≠ .null)
    (h : clean (list t items) path (some v) [] = (some c, [])) : ∃ values, v = .arr values := by
  cases v with
  | null => exact absurd rfl hv
  | arr values => exact ⟨values, rfl⟩
  | _ => simp [clean] at h

def cleanItem (items : List Param) (path : String) (v : Json) (errors : FieldErrors) : Cleaned :=
  match items with
  | [] => (some v, errors)
  | [item] =>
    match clean item path (some v) [] with
    | (cleaned, []) => (cleaned, errors)
    | (_, found) => (none, errors ++ found)
  | items =>
    match cleanFirst items path v with
    | some cleaned => (some cleaned, errors)
    | none => (none, errors ++ [(Fault.noItemType (items.map name)).at path])

theorem cleanItems_free (path : String) (i : Nat) (values : List Json) (errors : FieldErrors) :
    cleanItems (cleanItem []) path i values errors = (values, errors) := by
  induction values generalizing i with
  | nil => rfl
  | cons v vs ih => simp [cleanItems, cleanItem, ih]

theorem clean_arr (t : Traits) (items : List Param) (path : String) (values : List Json) :
    clean (list t items) path (some (.arr values)) [] =
      check t path [] (some (.arr (cleanItems (cleanItem items) path 0 values []).1),
        (cleanItems (cleanItem items) path 0 values []).2) := by
  rcases items with _ | ⟨item, _ | ⟨second, rest⟩⟩
  · simp only [clean, cleanItems_free]
  · simp only [clean]
    rfl
  · simp only [clean]
    rfl

theorem cleanItem_append (items : List Param) (path : String) (v : Json) (errors : FieldErrors) :
    cleanItem items path v errors =
      ((cleanItem items path v []).1, errors ++ (cleanItem items path v []).2) := by
  rcases items with _ | ⟨item, _ | ⟨second, rest⟩⟩
  · simp [cleanItem]
  · simp only [cleanItem]
    generalize clean item path (some v) [] = result
    obtain ⟨cleaned, found⟩ := result
    cases found <;> simp
  · simp only [cleanItem]
    split <;> simp

theorem clean_required (h : p.traits.required = true) : (clean p path none []).2 ≠ [] := by
  cases p <;>
  · simp only [traits] at h
    simp [clean, h]

theorem gather_nil (attrs : List Param) (extensible : Bool) (path : String) :
    gather attrs extensible path [] = (cleanAttrs attrs path [] [] []).1 := by
  cases extensible <;> rfl

theorem clean_none (h : clean p path none [] = (some c, [])) : p.traits.default = some c ∨
    ∃ t attrs extensible, p = dict t attrs extensible ∧ t.required = false ∧ t.default = none ∧
      (cleanAttrs attrs path [] [] []).2 = [] ∧ c = .obj (gather attrs extensible path []) := by
  cases p with
  | scalar t type | list t items =>
    simp only [clean] at h
    split at h
    next => cases h
    next => exact .inl (congrArg Prod.fst h)
  | dict t attrs extensible =>
    simp only [clean] at h
    split at h
    next => cases h
    next hrequired =>
      split at h
      next d hdefault => exact .inl (hdefault.trans (congrArg Prod.fst h))
      next hdefault =>
        have hc : c = .obj (cleanAttrs attrs path [] [] []).1 :=
          (Option.some.inj (congrArg Prod.fst h)).symm
        refine .inr ⟨t, attrs, extensible, rfl, by simpa using hrequired, hdefault,
          congrArg Prod.snd h, ?_⟩
        rw [hc, gather_nil]

theorem get?_gather_of_mem (hp : p ∈ attrs) :
    (gather attrs extensible path fields).get? p.name =
      (cleanAttrs attrs path fields [] []).1.get? p.name := by
  cases extensible with
  | false => rfl
  | true =>
    refine Fields.get?_insertAll_of_ne (fun f hf heq => ?_) _
    have hother := (List.mem_filter.mp hf).2
    simp only [Bool.not_eq_true', List.any_eq_false, beq_iff_eq] at hother
    exact hother p hp heq.symm

theorem get?_gather (hnames : (attrs.map name).Nodup) (hp : p ∈ attrs) :
    (gather attrs extensible path fields).get? p.name =
      (clean p (joinPath path p.name) (fields.get? p.name) []).1 := by
  rw [get?_gather_of_mem hp, get?_cleanAttrs hnames hp]
  exact Option.or_none

theorem declared_of_mem_gather {f : String × Json} (hf : f ∈ gather attrs false path fields) :
    ∃ p ∈ attrs, p.name = f.1 := by
  by_contra hnone
  have hne : ∀ p ∈ attrs, p.name ≠ f.1 := fun p hp heq => hnone ⟨p, hp, heq⟩
  have hget : (gather attrs false path fields).get? f.1 = none := get?_cleanAttrs_of_ne hne
  exact (Fields.get?_eq_none_iff _ _).mp hget f hf rfl

theorem clean_attr (extensible : Bool) (hnames : (attrs.map name).Nodup) (hp : p ∈ attrs)
    (hclean : (cleanAttrs attrs path fields [] []).2 = []) :
    clean p (joinPath path p.name) (fields.get? p.name) [] =
      ((gather attrs extensible path fields).get? p.name, []) :=
  Prod.ext (get?_gather hnames hp).symm (cleanAttrs_clean hclean hp)

theorem of_cleanFirst (h : cleanFirst items path v = some c) :
    ∃ p ∈ items, clean p path (some v) [] = (some c, []) := by
  induction items with
  | nil => cases h
  | cons p rest ih =>
    rw [cleanFirst] at h
    split at h
    next cleaned heq =>
      subst h
      exact ⟨p, List.mem_cons_self, heq⟩
    next =>
      obtain ⟨q, hq, hclean⟩ := ih h
      exact ⟨q, List.mem_cons_of_mem _ hq, hclean⟩

theorem of_cleanItem (h : cleanItem items path v [] = (some c, [])) :
    items = [] ∧ c = v ∨ ∃ p ∈ items, clean p path (some v) [] = (some c, []) := by
  match items with
  | [] => exact .inl ⟨rfl, (Option.some.inj (congrArg Prod.fst h)).symm⟩
  | [item] =>
    refine .inr ⟨item, List.mem_cons_self, ?_⟩
    simp only [cleanItem] at h
    split at h
    next cleaned heq => exact heq.trans h
    next => cases h
  | first :: second :: rest =>
    refine .inr ?_
    simp only [cleanItem] at h
    split at h
    next cleaned heq => exact of_cleanFirst (heq.trans (congrArg Prod.fst h))
    next => cases h

theorem mem_cleanItems {i : Nat} {values : List Json}
    (h : (cleanItems (cleanItem items) path i values []).2 = [])
    (hc : c ∈ (cleanItems (cleanItem items) path i values []).1) :
    ∃ itemPath, ∃ v ∈ values, cleanItem items itemPath v [] = (some c, []) := by
  induction values generalizing i with
  | nil => cases hc
  | cons v vs ih =>
    simp only [cleanItems] at h hc
    rw [cleanItems_append (cleanItem_append items)] at h hc
    obtain ⟨hv, hvs⟩ := List.append_eq_nil_iff.mp h
    rcases List.mem_append.mp hc with hc | hc
    · exact ⟨_, v, List.mem_cons_self, Prod.ext (Option.mem_toList.mp hc) hv⟩
    · obtain ⟨itemPath, w, hw, hclean⟩ := ih hvs hc
      exact ⟨itemPath, w, List.mem_cons_of_mem _ hw, hclean⟩

/-- The default is a value that the parameter accepts as it is. -/
def KeepsDefault (p : Param) : Prop :=
  ∀ d, p.traits.default = some d → p.clean p.name (some d) [] = (some d, [])

/-- No dictionary has two attributes of one name, every default is kept by its own parameter, and
no condition is put on a dictionary that is made where there is none. -/
inductive WellFormed : Param → Prop where
  | scalar {t : Traits} {type : Scalar} (hdefault : (scalar t type).KeepsDefault) :
      WellFormed (scalar t type)
  | dict {t : Traits} {attrs : List Param} {extensible : Bool}
      (hdefault : (dict t attrs extensible).KeepsDefault)
      (hfree : t.required = false → t.default = none → t.validators = [])
      (hnames : (attrs.map name).Nodup) (hattrs : ∀ p ∈ attrs, WellFormed p) :
      WellFormed (dict t attrs extensible)
  | list {t : Traits} {items : List Param} (hdefault : (list t items).KeepsDefault)
      (hitems : ∀ p ∈ items, WellFormed p) : WellFormed (list t items)

/-- What is cleaned is an allowed null, a value that is there, or what a dictionary is made of: a
default is itself a value that is there. -/
theorem of_clean {motive : Json → Prop} (hdefault : p.KeepsDefault)
    (hnull : p.traits.nullable = true → motive .null)
    (hpresent : ∀ {path v c}, v ≠ .null → p.clean path (some v) [] = (some c, []) → motive c)
    (hmade : ∀ {t attrs extensible path}, p = dict t attrs extensible → t.required = false →
      t.default = none → (cleanAttrs attrs path [] [] []).2 = [] →
      motive (.obj (gather attrs extensible path [])))
    {value : Option Json} (h : p.clean path value [] = (some c, [])) : motive c := by
  have hthere : ∀ {path v c}, p.clean path (some v) [] = (some c, []) → motive c := by
    intro path v c h
    by_cases hv : v = .null
    · subst hv
      obtain ⟨rfl, hnullable⟩ := clean_null_iff.mp h
      exact hnull hnullable
    · exact hpresent hv h
  cases value with
  | some v => exact hthere h
  | none =>
    rcases clean_none h with hc | ⟨t, attrs, extensible, heq, hrequired, hnone, hclean, rfl⟩
    · exact hthere (hdefault _ hc)
    · exact hmade heq hrequired hnone hclean

theorem conforms_gather (hnames : (attrs.map name).Nodup)
    (ih : ∀ p ∈ attrs, ∀ {path value c}, p.clean path value [] = (some c, []) → Conforms p c)
    (hclean : (cleanAttrs attrs path fields [] []).2 = [])
    (hvalid : ∀ x ∈ t.validators, x.accepts (.obj (gather attrs extensible path fields))) :
    Conforms (dict t attrs extensible) (.obj (gather attrs extensible path fields)) := by
  refine .dict (fun p hp hrequired => ?_) (fun p hp v hv => ?_) (fun hext f hf => ?_) hvalid
  · have hattr := clean_attr extensible hnames hp hclean
    cases hget : fields.get? p.name with
    | none =>
      rw [hget] at hattr
      exact absurd (congrArg Prod.snd hattr) (clean_required hrequired)
    | some v =>
      rw [hget] at hattr
      obtain ⟨c, hc⟩ := clean_present (congrArg Prod.snd hattr)
      exact (Fields.contains_iff _ _).mpr ⟨c, (congrArg Prod.fst hattr).symm.trans hc⟩
  · have hattr := clean_attr extensible hnames hp hclean
    rw [hv] at hattr
    exact ih p hp hattr
  · subst hext
    exact declared_of_mem_gather hf

theorem WellFormed.conforms (h : p.WellFormed) {path : String} {value : Option Json} {c : Json}
    (hc : p.clean path value [] = (some c, [])) : Conforms p c := by
  induction h generalizing path value c with
  | scalar hdefault =>
    refine of_clean hdefault .null (fun hv h => ?_) nofun hc
    obtain ⟨hcoerce, hvalid⟩ := (clean_scalar_iff hv).mp h
    exact .scalar (Scalar.has_of_coerce? hv hcoerce) hvalid
  | dict hdefault hfree hnames _ ih =>
    refine of_clean hdefault .null (fun hv h => ?_) (fun heq hrequired hnone hclean => ?_) hc
    · obtain ⟨fields, rfl⟩ := obj_of_clean_dict hv h
      obtain ⟨hclean, -, rfl, hvalid⟩ := clean_obj_iff.mp h
      exact conforms_gather hnames ih hclean hvalid
    · -- what is made of nothing was never checked, so there must be nothing to check
      cases heq
      refine conforms_gather hnames ih hclean fun x hx => ?_
      rw [hfree hrequired hnone] at hx
      cases hx
  | list hdefault _ ih =>
    refine of_clean hdefault .null (fun hv h => ?_) nofun hc
    obtain ⟨values, rfl⟩ := arr_of_clean_list hv h
    rw [clean_arr, check_eq_iff] at h
    obtain ⟨rfl, hclean, hvalid⟩ := h
    refine .list (fun w hw => ?_) hvalid
    obtain ⟨itemPath, v, -, hitem⟩ := mem_cleanItems hclean hw
    rcases of_cleanItem hitem with ⟨rfl, -⟩ | ⟨p, hp, hp'⟩
    · exact .free w
    · exact .typed hp (ih p hp hp')

end Param

/-- What a well-formed schema lets through without adding an error conforms to it. -/
theorem cleaned_conforms {p : Param} (hp : p.WellFormed) {path : String} {value : Option Json}
    {errors : FieldErrors} {c : Json} (h : p.clean path value errors = (some c, errors)) :
    Conforms p c :=
  hp.conforms (Param.clean_eq_iff.mp h)

/-- A network: its name, an address, options that are made where there are none, and routes. -/
def networkSchema : Param :=
  .dict { name := "network" } [
    (Param.str "name").require.withValidator (.length (some 1) (some 8)),
    .scalar { name := "address", nullable := true } .ipAddress,
    .dict { name := "options" } [((Param.int "mtu").withDefault (.nat 1500)).withValidator
      (.oneOf [.nat 1500, .nat 9000])] false,
    .list { name := "routes" } [.scalar { name := "route" } .ipAddress]] true

theorem wellFormed_networkSchema : networkSchema.WellFormed := by
  have hfree : ∀ {p : Param}, p.traits.default = none → p.KeepsDefault := fun hp d hd => by
    cases hp.symm.trans hd
  refine .dict (hfree rfl) (fun _ _ => rfl) (by decide) fun p hp => ?_
  simp only [List.mem_cons, List.not_mem_nil, or_false] at hp
  rcases hp with rfl | rfl | rfl | rfl
  · exact .scalar (hfree rfl)
  · exact .scalar (hfree rfl)
  · refine .dict (hfree rfl) (fun _ _ => rfl) (by decide) fun p hp => ?_
    cases List.mem_singleton.mp hp
    refine .scalar fun d hd => ?_
    cases hd
    rfl
  · refine .list (hfree rfl) fun p hp => ?_
    cases List.mem_singleton.mp hp
    exact .scalar (hfree rfl)

/-- A network as it is given, and as it is cleaned: options are made, addresses are written in
their own way, and what is not declared is kept. -/
theorem cleaned_network_conforms :
    networkSchema.WellFormed ∧
      networkSchema.clean "network" (some (.obj [("address", .null), ("name", .nat 7),
        ("routes", .arr [.str "10.0.0.1", .str "0:0:0:0:0:0:0:1"]), ("site", .bool true)])) [] =
        (some (.obj [("address", .null), ("name", .str "7"), ("options", .obj [("mtu", .nat 1500)]),
          ("routes", .arr [.str "10.0.0.1", .str "::1"]), ("site", .bool true)]), []) ∧
      Conforms networkSchema (.obj [("address", .null), ("name", .str "7"),
        ("options", .obj [("mtu", .nat 1500)]),
        ("routes", .arr [.str "10.0.0.1", .str "::1"]), ("site", .bool true)]) := by
  have hclean : networkSchema.clean "network" (some (.obj [("address", .null), ("name", .nat 7),
      ("routes", .arr [.str "10.0.0.1", .str "0:0:0:0:0:0:0:1"]), ("site", .bool true)])) [] =
      (some (.obj [("address", .null), ("name", .str "7"), ("options", .obj [("mtu", .nat 1500)]),
        ("routes", .arr [.str "10.0.0.1", .str "::1"]), ("site", .bool true)]), []) := by
    rfl
  exact ⟨wellFormed_networkSchema, hclean, cleaned_conforms wellFormed_networkSchema hclean⟩

end Switchboard
