import Switchboard.Proofs.Query.Selection
import Switchboard.Proofs.Schema.Reports

namespace Switchboard

namespace Fields

theorem get?_insertAll_congr {fields fields' : Fields} {key : String}
    (h : fields.get? key = fields'.get? key) (more : List (String × Json)) :
    (fields.insertAll more).get? key = (fields'.insertAll more).get? key := by
  unfold insertAll
  induction more generalizing fields fields' with
  | nil => exact h
  | cons f rest ih =>
    have hstep : (fields.insert f.1 f.2).get? key = (fields'.insert f.1 f.2).get? key := by
      rw [get?_insert, get?_insert, h]
    exact ih hstep

end Fields

namespace Param

variable {p : Param} {t : Traits} {attrs : List Param} {extensible : Bool} {path : String}
  {fields : Fields} {v c : Json}

/-- There are no conditions on dictionaries, as far as they are attributes of one another. -/
inductive PlainDictionaries : Param → Prop where
  | scalar {t : Traits} {type : Scalar} : PlainDictionaries (scalar t type)
  | dict {t : Traits} {attrs : List Param} {extensible : Bool} (hfree : t.validators = [])
      (hattrs : ∀ p ∈ attrs, PlainDictionaries p) : PlainDictionaries (dict t attrs extensible)
  | list {t : Traits} {items : List Param} : PlainDictionaries (list t items)

def NotDictionary (p : Param) : Prop := ∀ t attrs extensible, p ≠ .dict t attrs extensible

/-- Through attributes that are dictionaries the steps lead to a value that is given for a parameter
of another kind, or under a key that is not declared. -/
inductive Given : Param → Json → List String → Prop where
  | here {p : Param} (hkind : p.NotDictionary) (v : Json) :
      Given p v []
  | attr {t : Traits} {attrs : List Param} {extensible : Bool} {fields : Fields} {p : Param}
      {v : Json} {steps : List String} (hp : p ∈ attrs) (hv : fields.get? p.name = some v)
      (h : Given p v steps) : Given (.dict t attrs extensible) (.obj fields) (p.name :: steps)
  | undeclared {t : Traits} {attrs : List Param} {extensible : Bool} {fields : Fields}
      {key : String} {v : Json} (hkey : ∀ p ∈ attrs, p.name ≠ key)
      (hv : fields.get? key = some v) : Given (.dict t attrs extensible) (.obj fields) [key]

theorem clean_relax_of_not_dict (hkind : p.NotDictionary)
    (path : String) (v : Json) (errors : FieldErrors) :
    p.relax.clean path (some v) errors = p.clean path (some v) errors := by
  cases p with
  | dict t attrs extensible => exact absurd rfl (hkind t attrs extensible)
  | scalar t type => cases v <;> rfl
  | list t items =>
    cases v with
    | arr values => rcases items with _ | ⟨item, _ | ⟨second, rest⟩⟩ <;> rfl
    | _ => rfl

theorem any_name_relaxAll (attrs : List Param) (key : String) :
    ((relaxAll attrs).any fun p => p.name == key) = attrs.any fun p => p.name == key := by
  rw [relaxAll_eq, List.any_map]
  congr 1
  funext p
  simp only [Function.comp_apply, name_relax]

theorem mem_relaxAll (hp : p ∈ attrs) : p.relax ∈ relaxAll attrs := by
  rw [relaxAll_eq]
  exact List.mem_map_of_mem hp

theorem get?_gather_undeclared {key : String} (hkey : ∀ p ∈ attrs, p.name ≠ key)
    (hv : fields.get? key = some v) (path : String) :
    ∃ w, (gather attrs true path fields).get? key = some w ∧
      (gather (relaxAll attrs) true path fields).get? key = some w := by
  have hne : ∀ p ∈ relaxAll attrs, p.name ≠ key := by
    intro p hp
    rw [relaxAll_eq] at hp
    obtain ⟨q, hq, rfl⟩ := List.mem_map.mp hp
    exact name_relax q ▸ hkey q hq
  have hstart : Fields.get? (cleanAttrs attrs path fields [] []).1 key =
      Fields.get? (cleanAttrs (relaxAll attrs) path fields [] []).1 key := by
    rw [get?_cleanAttrs_of_ne hkey, get?_cleanAttrs_of_ne hne]
  have hsame : (gather attrs true path fields).get? key =
      (gather (relaxAll attrs) true path fields).get? key := by
    simp only [gather, if_true, any_name_relaxAll]
    exact Fields.get?_insertAll_congr hstart _
  have hfound : (gather attrs true path fields).contains key = true := by
    simp only [gather, if_true]
    refine (Fields.contains_insertAll _ _ _).mpr (.inr ⟨v, List.mem_filter.mpr ?_⟩)
    have hnone : (attrs.any fun p => p.name == key) = false := by simpa using hkey
    exact ⟨Fields.mem_of_get? hv, by simp [hnone]⟩
  obtain ⟨w, hw⟩ := (Fields.contains_iff _ _).mp hfound
  exact ⟨w, hw, hsame ▸ hw⟩

/-- Two results agree on all that is given. -/
def AgreeOn (p : Param) (v c c' : Json) : Prop :=
  ∀ steps, p.Given v steps → ∃ w, c.descend? steps = some w ∧ c'.descend? steps = some w

theorem agreeOn_self (hkind : p.NotDictionary) (v c : Json) :
    p.AgreeOn v c c := by
  intro steps hgiven
  cases hgiven with
  | here => exact ⟨c, rfl, rfl⟩
  | attr | undeclared => exact absurd rfl (hkind _ _ _)

/-- The relaxed parameter lets the value through as well, and both results agree. -/
def Relaxes (p : Param) (path : String) (v c : Json) : Prop :=
  ∃ c', p.relax.clean path (some v) [] = (some c', []) ∧ p.AgreeOn v c c'

theorem relaxes_of_not_dict (hkind : p.NotDictionary)
    (h : p.clean path (some v) [] = (some c, [])) : p.Relaxes path v c := by
  have hclean := clean_relax_of_not_dict hkind path v []
  exact ⟨c, hclean.trans h, agreeOn_self hkind v c⟩

theorem cleanAttrs_relaxAll_clean (hclean : (cleanAttrs attrs path fields [] []).2 = [])
    (ih : ∀ p ∈ attrs, ∀ path v c, p.clean path (some v) [] = (some c, []) → p.Relaxes path v c) :
    (cleanAttrs (relaxAll attrs) path fields [] []).2 = [] := by
  rw [cleanAttrs_errors, List.flatMap_eq_nil_iff]
  intro q hq
  rw [relaxAll_eq] at hq
  obtain ⟨p, hp, rfl⟩ := List.mem_map.mp hq
  rw [name_relax, errorsOf]
  have herrors := cleanAttrs_clean hclean hp
  cases hget : fields.get? p.name with
  | none => rw [clean_relax_none]
  | some v =>
    rw [hget] at herrors
    obtain ⟨c, hc⟩ := clean_present herrors
    obtain ⟨c', hc', -⟩ := ih p hp _ v c (Prod.ext hc herrors)
    rw [hc']

theorem agreeOn_attr (extensible : Bool) (hnames : (attrs.map name).Nodup) (hp : p ∈ attrs)
    (hclean : (cleanAttrs attrs path fields [] []).2 = [])
    (hrelaxed : (cleanAttrs (relaxAll attrs) path fields [] []).2 = [])
    (ih : ∀ path v c, p.clean path (some v) [] = (some c, []) → p.Relaxes path v c)
    (hv : fields.get? p.name = some v) :
    ∃ c c', (gather attrs extensible path fields).get? p.name = some c ∧
      (gather (relaxAll attrs) extensible path fields).get? p.name = some c' ∧
        p.AgreeOn v c c' := by
  have hnames' : ((relaxAll attrs).map name).Nodup := by
    rw [map_name_relaxAll]
    exact hnames
  have hattr := clean_attr extensible hnames hp hclean
  have hattr' := clean_attr extensible hnames' (mem_relaxAll hp) hrelaxed
  rw [name_relax, hv] at hattr'
  rw [hv] at hattr
  obtain ⟨c, hc⟩ := clean_present (congrArg Prod.snd hattr)
  have hget : (gather attrs extensible path fields).get? p.name = some c :=
    (congrArg Prod.fst hattr).symm.trans hc
  rw [hget] at hattr
  obtain ⟨c', hc', hagree⟩ := ih _ v c hattr
  exact ⟨c, c', hget, congrArg Prod.fst (hattr'.symm.trans hc'), hagree⟩

theorem relaxes_obj (hnames : (attrs.map name).Nodup)
    (ih : ∀ p ∈ attrs, ∀ path v c, p.clean path (some v) [] = (some c, []) → p.Relaxes path v c)
    (hfree : t.validators = [])
    (h : clean (dict t attrs extensible) path (some (.obj fields)) [] = (some c, [])) :
    (dict t attrs extensible).Relaxes path (.obj fields) c := by
  obtain ⟨hclean, hclosed, rfl, -⟩ := clean_obj_iff.mp h
  have hrelaxed := cleanAttrs_relaxAll_clean hclean ih
  refine ⟨.obj (gather (relaxAll attrs) extensible path fields),
    clean_obj_iff.mpr ⟨hrelaxed, fun hext f hf => ?_, rfl, fun x hx => ?_⟩, fun steps hgiven => ?_⟩
  · obtain ⟨p, hp, hname⟩ := hclosed hext f hf
    exact ⟨p.relax, mem_relaxAll hp, (name_relax p).trans hname⟩
  · rw [Traits.relax, hfree] at hx
    cases hx
  · cases hgiven with
    | here hkind => exact absurd rfl (hkind t attrs extensible)
    | @attr _ _ _ _ p v steps hp hv hgiven =>
      obtain ⟨c, c', hget, hget', hagree⟩ :=
        agreeOn_attr extensible hnames hp hclean hrelaxed (ih p hp) hv
      rw [Json.descend?_of_get? hget, Json.descend?_of_get? hget']
      exact hagree steps hgiven
    | @undeclared _ _ _ _ key v hkey hv =>
      cases extensible with
      | false =>
        obtain ⟨p, hp, hname⟩ := hclosed rfl _ (Fields.mem_of_get? hv)
        exact absurd hname (hkey p hp)
      | true =>
        obtain ⟨w, hget, hget'⟩ := get?_gather_undeclared hkey hv path
        rw [Json.descend?_of_get? hget, Json.descend?_of_get? hget']
        exact ⟨w, rfl, rfl⟩

theorem PlainDictionaries.relaxes (hplain : p.PlainDictionaries) (hnames : p.NamesApart)
    {path : String} {v c : Json} (h : p.clean path (some v) [] = (some c, [])) :
    p.Relaxes path v c := by
  induction hplain generalizing path v c with
  | scalar => exact relaxes_of_not_dict (fun _ _ _ heq => nomatch heq) h
  | list => exact relaxes_of_not_dict (fun _ _ _ heq => nomatch heq) h
  | @dict t attrs extensible hfree _ ih =>
    obtain ⟨hnodup, hattrs⟩ := hnames
    by_cases hv : v = .null
    · subst hv
      obtain ⟨rfl, hnull⟩ := clean_null_iff.mp h
      exact ⟨.null, clean_null_iff.mpr ⟨rfl, hnull⟩, fun steps hgiven => by
        cases hgiven with
        | here hkind => exact absurd rfl (hkind t attrs extensible)⟩
    · obtain ⟨fields, rfl⟩ := obj_of_clean_dict hv h
      exact relaxes_obj hnodup
        (fun p hp path v c hc => ih p hp (namesApart_of_mem hattrs hp) hc) hfree h

end Param

/-- What a schema lets through without an error, its relaxed form lets through, and both make the
same of every value that is given for something else than a dictionary. -/
theorem relaxed_agrees_on_given {p : Param} (hnames : p.NamesApart) (hplain : p.PlainDictionaries)
    {path : String} {v c : Json} {errors : FieldErrors}
    (h : p.clean path (some v) errors = (some c, errors)) :
    ∃ relaxed, p.relax.clean path (some v) errors = (some relaxed, errors) ∧
      ∀ steps, p.Given v steps →
        ∃ w, c.descend? steps = some w ∧ relaxed.descend? steps = some w := by
  obtain ⟨relaxed, hclean, hagree⟩ := hplain.relaxes hnames (Param.clean_eq_iff.mp h)
  exact ⟨relaxed, Param.clean_eq_iff.mpr hclean, hagree⟩

theorem namesApart_networkSchema : networkSchema.NamesApart := by
  simp [networkSchema, Param.NamesApart, Param.NamesApartAll, Param.name, Param.traits, Param.str,
    Param.int, Param.require, Param.withValidator, Param.withDefault, Param.mapTraits]

theorem plainDictionaries_networkSchema : networkSchema.PlainDictionaries := by
  refine .dict rfl fun p hp => ?_
  simp only [List.mem_cons, List.not_mem_nil, or_false] at hp
  rcases hp with rfl | rfl | rfl | rfl
  · exact .scalar
  · exact .scalar
  · exact .dict rfl fun p hp => List.mem_singleton.mp hp ▸ .scalar
  · exact .list

/-- A network with empty options: only the schema itself fills them in, and both agree on the name,
the routes and a key that is not declared. -/
theorem relaxed_network_agrees_on_given :
    networkSchema.NamesApart ∧ networkSchema.PlainDictionaries ∧
      networkSchema.clean "network" (some (.obj [("name", .nat 7), ("options", .obj []),
        ("routes", .arr [.str "0:0:0:0:0:0:0:1"]), ("site", .bool true)])) [] =
        (some (.obj [("name", .str "7"), ("options", .obj [("mtu", .nat 1500)]),
          ("routes", .arr [.str "::1"]), ("site", .bool true)]), []) ∧
      networkSchema.Given (.obj [("name", .nat 7), ("options", .obj []),
        ("routes", .arr [.str "0:0:0:0:0:0:0:1"]), ("site", .bool true)]) ["site"] ∧
      ∃ relaxed, networkSchema.relax.clean "network" (some (.obj [("name", .nat 7),
          ("options", .obj []), ("routes", .arr [.str "0:0:0:0:0:0:0:1"]),
          ("site", .bool true)])) [] = (some relaxed, []) ∧
        ∀ steps, networkSchema.Given (.obj [("name", .nat 7), ("options", .obj []),
            ("routes", .arr [.str "0:0:0:0:0:0:0:1"]), ("site", .bool true)]) steps →
          ∃ w, (Json.obj [("name", .str "7"), ("options", .obj [("mtu", .nat 1500)]),
            ("routes", .arr [.str "::1"]), ("site", .bool true)]).descend? steps = some w ∧
            relaxed.descend? steps = some w := by
  have hclean : networkSchema.clean "network" (some (.obj [("name", .nat 7), ("options", .obj []),
      ("routes", .arr [.str "0:0:0:0:0:0:0:1"]), ("site", .bool true)])) [] =
      (some (.obj [("name", .str "7"), ("options", .obj [("mtu", .nat 1500)]),
        ("routes", .arr [.str "::1"]), ("site", .bool true)]), []) := by
    rfl
  exact ⟨namesApart_networkSchema, plainDictionaries_networkSchema, hclean,
    .undeclared (by decide) rfl,
    relaxed_agrees_on_given namesApart_networkSchema plainDictionaries_networkSchema hclean⟩

end Switchboard
