import Switchboard.Proofs.Schema.Conformance

namespace Switchboard

theorem Scalar.coerce?_of_has {type : Scalar} {v : Json} (h : type.Has v) :
    type.coerce? v = some v := by
  cases type with
  | any => rfl
  | bool =>
    obtain ⟨b, rfl⟩ := h
    rfl
  | int =>
    obtain ⟨n, rfl⟩ := h
    rfl
  | float =>
    obtain ⟨n, rfl⟩ := h
    rfl
  | str =>
    obtain ⟨s, rfl⟩ := h
    rfl
  | ipAddress =>
    obtain ⟨a, ha, rfl⟩ := h
    simp only [coerce?, ha, Option.map_some]

theorem Scalar.ne_null_of_has {type : Scalar} {v : Json} (h : type.Has v) : v ≠ .null := by
  cases type with
  | any => exact h
  | bool | int | float | str =>
    obtain ⟨x, rfl⟩ := h
    simp [Json.int]
  | ipAddress =>
    obtain ⟨a, -, rfl⟩ := h
    simp

namespace Fields

variable {fields fields' more : Fields} {key : String}

def Ordered (fields : Fields) : Prop := fields.Pairwise fun f g => f.1 < g.1

theorem mem_insert {v : Json} {f : String × Json} (h : f ∈ fields.insert key v) :
    f.1 = key ∨ f ∈ fields := by
  induction fields with
  | nil => exact .inl (congrArg Prod.fst (List.mem_singleton.mp h))
  | cons g rest ih =>
    obtain ⟨k, w⟩ := g
    rw [insert] at h
    split at h
    next =>
      rcases List.mem_cons.mp h with rfl | h
      · exact .inl rfl
      · exact .inr h
    next =>
      split at h
      next =>
        rcases List.mem_cons.mp h with rfl | h
        · exact .inl rfl
        · exact .inr (List.mem_cons_of_mem _ h)
      next =>
        rcases List.mem_cons.mp h with rfl | h
        · exact .inr List.mem_cons_self
        · exact (ih h).imp_right (List.mem_cons_of_mem _)

theorem Ordered.insert (h : fields.Ordered) (key : String) (v : Json) :
    (fields.insert key v).Ordered := by
  induction fields with
  | nil => exact List.pairwise_singleton ..
  | cons f rest ih =>
    obtain ⟨k, w⟩ := f
    obtain ⟨hfirst, hrest⟩ := List.pairwise_cons.mp h
    rw [Fields.insert]
    split
    next hlt =>
      refine List.pairwise_cons.mpr ⟨fun g hg => ?_, h⟩
      rcases List.mem_cons.mp hg with rfl | hg
      · exact hlt
      · exact String.lt_trans hlt (hfirst g hg)
    next hnot =>
      split
      next heq =>
        subst heq
        exact List.pairwise_cons.mpr ⟨hfirst, hrest⟩
      next hne =>
        have hlt : k < key := Classical.byContradiction fun hnot' =>
          hne (String.le_antisymm (String.not_lt.mp hnot') (String.not_lt.mp hnot))
        refine List.pairwise_cons.mpr ⟨fun g hg => ?_, ih hrest⟩
        rcases mem_insert hg with heq | hg
        · exact heq ▸ hlt
        · exact hfirst g hg

theorem Ordered.insertAll (h : fields.Ordered) (more : List (String × Json)) :
    (fields.insertAll more).Ordered := by
  unfold Fields.insertAll
  induction more generalizing fields with
  | nil => exact h
  | cons f rest ih => exact ih (h.insert f.1 f.2)

theorem Ordered.le_of_get? {f : String × Json} {rest : Fields} {v : Json}
    (h : Ordered (f :: rest)) (hget : get? (f :: rest) key = some v) : key = f.1 ∨ f.1 < key := by
  rw [get?_cons] at hget
  split at hget
  next heq => exact .inl heq
  next =>
    obtain ⟨w, hw⟩ := (contains_eq_true_iff_mem rest key).mp
      ((contains_iff rest key).mpr ⟨v, hget⟩)
    exact .inr ((List.pairwise_cons.mp h).1 _ hw)

theorem Ordered.get?_rest {f : String × Json} {rest : Fields} (h : Ordered (f :: rest)) :
    rest.get? f.1 = none :=
  (get?_eq_none_iff _ _).mpr fun g hg heq => by
    have hlt := (List.pairwise_cons.mp h).1 g hg
    rw [heq] at hlt
    exact String.lt_irrefl _ hlt

theorem Ordered.ext (h : fields.Ordered) (h' : fields'.Ordered)
    (hget : ∀ key, fields.get? key = fields'.get? key) : fields = fields' := by
  induction fields generalizing fields' with
  | nil =>
    cases fields' with
    | nil => rfl
    | cons g rest =>
      have hg := hget g.1
      rw [get?_cons, if_pos rfl] at hg
      cases hg
  | cons f rest ih =>
    have hf := hget f.1
    rw [get?_cons, if_pos rfl] at hf
    cases fields' with
    | nil => cases hf
    | cons g rest' =>
      have hg := hget g.1
      rw [get?_cons g, if_pos rfl] at hg
      -- each first key is found among the others, so none of the two comes before the other
      have hkey : f.1 = g.1 := by
        rcases h'.le_of_get? hf.symm with heq | hlt
        · exact heq
        · rcases h.le_of_get? hg with heq | hlt'
          · exact heq.symm
          · exact absurd hlt' (String.lt_asymm hlt)
      have hvalue : f.2 = g.2 := by
        rw [hkey, get?_cons, if_pos rfl] at hf
        exact Option.some.inj hf
      have hrest : rest = rest' := by
        refine ih (List.pairwise_cons.mp h).2 (List.pairwise_cons.mp h').2 fun key => ?_
        by_cases heq : key = f.1
        · rw [heq, h.get?_rest, hkey, h'.get?_rest]
        · have hboth := hget key
          rwa [get?_cons, get?_cons, if_neg heq, if_neg (hkey ▸ heq)] at hboth
      rw [Prod.ext hkey hvalue, hrest]

theorem get?_filter (p : String → Bool) (fields : Fields) (key : String) :
    get? (fields.filter fun f => p f.1) key = if p key then fields.get? key else none := by
  induction fields with
  | nil => exact (ite_self _).symm
  | cons f rest ih =>
    rw [List.filter_cons, get?_cons]
    by_cases hp : p f.1
    · rw [if_pos hp, get?_cons, ih]
      by_cases heq : key = f.1
      · rw [if_pos heq, heq, if_pos hp, if_pos rfl]
      · rw [if_neg heq, if_neg heq]
    · rw [if_neg hp, ih]
      by_cases heq : key = f.1
      · rw [heq, if_neg hp, if_neg hp]
      · rw [if_neg heq]

theorem get?_insertAll (hmore : Ordered more) (fields : Fields) (key : String) :
    (fields.insertAll more).get? key = (more.get? key).or (fields.get? key) := by
  unfold insertAll
  induction more generalizing fields with
  | nil => rfl
  | cons f rest ih =>
    rw [List.foldl_cons, ih (List.pairwise_cons.mp hmore).2, get?_insert, get?_cons]
    by_cases heq : key = f.1
    · rw [if_pos heq, if_pos heq, heq, hmore.get?_rest]
      rfl
    · rw [if_neg heq, if_neg heq]

end Fields

namespace Param

variable {p : Param} {t : Traits} {attrs items : List Param} {extensible : Bool}
  {path path' : String} {fields fields' cleaned : Fields} {v c : Json}

/-- Two results agree in what they give and in whether there is an error. -/
def Alike {α : Type} (r r' : α × FieldErrors) : Prop := r.1 = r'.1 ∧ (r.2 = [] ↔ r'.2 = [])

theorem Alike.eq {α : Type} {r r' : α × FieldErrors} (h : Alike r r') (hr : r.2 = []) : r = r' :=
  Prod.ext h.1 (hr.trans (h.2.mp hr).symm)

theorem check_alike (t : Traits) (path path' : String) (v : Json) {found found' : FieldErrors}
    (h : found = [] ↔ found' = []) :
    Alike (check t path [] (some v, found)) (check t path' [] (some v, found')) := by
  refine ⟨by rw [check_value, check_value], ?_⟩
  cases found with
  | nil =>
    rw [h.mp rfl]
    simp [check]
  | cons e rest =>
    cases found' with
    | nil => cases h.mpr rfl
    | cons e' rest' => simp [check]

theorem cleanAttrs_alike (h : ∀ p ∈ attrs,
      Alike (clean p (joinPath path p.name) (fields.get? p.name) [])
        (clean p (joinPath path' p.name) (fields'.get? p.name) [])) :
    Alike (cleanAttrs attrs path fields cleaned []) (cleanAttrs attrs path' fields' cleaned []) := by
  induction attrs generalizing cleaned with
  | nil => exact ⟨rfl, Iff.rfl⟩
  | cons p rest ih =>
    obtain ⟨hvalue, herrors⟩ := h p List.mem_cons_self
    simp only [cleanAttrs]
    rw [cleanAttrs_append, cleanAttrs_append rest path', hvalue]
    have hrest : ∀ next, Alike (cleanAttrs rest path fields next [])
        (cleanAttrs rest path' fields' next []) := fun _ =>
      ih fun q hq => h q (List.mem_cons_of_mem _ hq)
    refine ⟨(hrest _).1, ?_⟩
    rw [List.append_eq_nil_iff, List.append_eq_nil_iff]
    exact and_congr herrors (hrest _).2

theorem gather_alike (h : (cleanAttrs attrs path fields [] []).1 =
      (cleanAttrs attrs path' fields [] []).1) :
    gather attrs extensible path fields = gather attrs extensible path' fields := by
  simp only [gather, h]

theorem cleanFirst_congr (h : ∀ p ∈ items,
      Alike (clean p path (some v) []) (clean p path' (some v) [])) :
    cleanFirst items path v = cleanFirst items path' v := by
  induction items with
  | nil => rfl
  | cons p rest ih =>
    have hrest := ih fun q hq => h q (List.mem_cons_of_mem _ hq)
    have hp := h p List.mem_cons_self
    rw [cleanFirst, cleanFirst, hrest]
    generalize clean p path (some v) [] = r at hp
    generalize clean p path' (some v) [] = r' at hp
    obtain ⟨cleaned, found⟩ := r
    obtain ⟨cleaned', found'⟩ := r'
    obtain ⟨rfl, herrors⟩ := hp
    cases found with
    | nil =>
      cases herrors.mp rfl
      rfl
    | cons e more =>
      cases found' with
      | nil => cases herrors.mpr rfl
      | cons e' more' => rfl

theorem cleanItem_alike (h : ∀ p ∈ items,
      Alike (clean p path (some v) []) (clean p path' (some v) [])) :
    Alike (cleanItem items path v []) (cleanItem items path' v []) := by
  match items with
  | [] => exact ⟨rfl, Iff.rfl⟩
  | [item] =>
    have hitem := h item List.mem_cons_self
    simp only [cleanItem]
    generalize clean item path (some v) [] = r at hitem
    generalize clean item path' (some v) [] = r' at hitem
    obtain ⟨cleaned, found⟩ := r
    obtain ⟨cleaned', found'⟩ := r'
    obtain ⟨rfl, herrors⟩ := hitem
    cases found <;> cases found' <;> simp_all [Alike]
  | first :: second :: rest =>
    simp only [cleanItem]
    rw [cleanFirst_congr h]
    split <;> simp [Alike]

theorem cleanItems_alike {values : List Json} {i : Nat} (h : ∀ v ∈ values, ∀ path path',
      Alike (cleanItem items path v []) (cleanItem items path' v [])) :
    Alike (cleanItems (cleanItem items) path i values [])
      (cleanItems (cleanItem items) path' i values []) := by
  induction values generalizing i with
  | nil => exact ⟨rfl, Iff.rfl⟩
  | cons v vs ih =>
    obtain ⟨hvalue, herrors⟩ := h v List.mem_cons_self (joinPath path (toString i))
      (joinPath path' (toString i))
    obtain ⟨hvalues, herrors'⟩ := ih (i := i + 1) fun w hw => h w (List.mem_cons_of_mem _ hw)
    simp only [cleanItems]
    rw [cleanItems_append (cleanItem_append items), cleanItems_append (cleanItem_append items) path']
    refine ⟨by rw [hvalue, hvalues], ?_⟩
    rw [List.append_eq_nil_iff, List.append_eq_nil_iff, herrors, herrors']

/-- The path of a value is only seen in messages. -/
theorem clean_alike : ∀ (p : Param) (path path' : String) (value : Option Json),
    Alike (clean p path value []) (clean p path' value [])
  | scalar t type, path, path', value => by
    cases value with
    | none =>
      simp only [clean]
      split <;> simp [Alike]
    | some v =>
      by_cases hv : v = .null
      · subst hv
        simp only [clean]
        split <;> simp [Alike]
      · rw [clean_scalar_eq hv, clean_scalar_eq hv]
        cases type.coerce? v with
        | none => simp [Alike]
        | some c => exact check_alike t path path' c Iff.rfl
  | dict t attrs extensible, path, path', value => by
    have hattrs : ∀ fields, Alike (cleanAttrs attrs path fields [] [])
        (cleanAttrs attrs path' fields [] []) := fun fields =>
      cleanAttrs_alike fun p hp => clean_alike p _ _ _
    cases value with
    | none =>
      obtain ⟨hvalues, herrors⟩ := hattrs []
      simp only [clean]
      split
      next => simp [Alike]
      next =>
        split
        next => simp [Alike]
        next => exact ⟨by rw [hvalues], herrors⟩
    | some v =>
      cases v with
      | null =>
        simp only [clean]
        split <;> simp [Alike]
      | obj fields =>
        obtain ⟨hvalues, herrors⟩ := hattrs fields
        rw [clean_obj_eq, clean_obj_eq, gather_alike hvalues]
        refine check_alike t path path' _ ?_
        rw [List.append_eq_nil_iff, List.append_eq_nil_iff, herrors, unexpected_eq_nil_iff,
          unexpected_eq_nil_iff]
      | _ => simp [clean, Alike]
  | list t items, path, path', value => by
    have hitem : ∀ v path path', Alike (cleanItem items path v []) (cleanItem items path' v []) :=
      fun v path path' => cleanItem_alike fun p hp => clean_alike p _ _ _
    cases value with
    | none =>
      simp only [clean]
      split <;> simp [Alike]
    | some v =>
      cases v with
      | null =>
        simp only [clean]
        split <;> simp [Alike]
      | arr values =>
        have hitems : Alike (cleanItems (cleanItem items) path 0 values [])
            (cleanItems (cleanItem items) path' 0 values []) := cleanItems_alike fun v _ => hitem v
        rw [clean_arr, clean_arr, hitems.1]
        exact check_alike t path path' _ hitems.2
      | _ => simp [clean, Alike]
termination_by p => sizeOf p
decreasing_by
  all_goals
    have hlt := List.sizeOf_lt_of_mem hp
    simp only [dict.sizeOf_spec, list.sizeOf_spec]
    omega

theorem ordered_cleanAttrs (h : cleaned.Ordered) (path : String) (fields : Fields) :
    (cleanAttrs attrs path fields cleaned []).1.Ordered := by
  induction attrs generalizing cleaned with
  | nil => exact h
  | cons p rest ih =>
    simp only [cleanAttrs]
    rw [cleanAttrs_append]
    cases (clean p (joinPath path p.name) (fields.get? p.name) []).1 with
    | none => exact ih h
    | some v => exact ih (h.insert p.name v)

theorem ordered_gather (attrs : List Param) (extensible : Bool) (path : String) (fields : Fields) :
    (gather attrs extensible path fields).Ordered := by
  have hcleaned : (cleanAttrs attrs path fields [] []).1.Ordered :=
    ordered_cleanAttrs List.Pairwise.nil path fields
  cases extensible with
  | false => exact hcleaned
  | true => exact hcleaned.insertAll _

theorem gather_gather (h : (cleanAttrs attrs path' (gather attrs extensible path fields) [] []).1 =
      (cleanAttrs attrs path fields [] []).1) :
    gather attrs extensible path' (gather attrs extensible path fields) =
      gather attrs extensible path fields := by
  cases extensible with
  | false => exact h
  | true =>
    have hordered := ordered_gather attrs true path fields
    -- both sides are in order: a declared key comes from cleaning, any other is a field that is kept
    refine (ordered_gather ..).ext hordered fun key => ?_
    rw [gather, h, if_pos rfl, Fields.get?_insertAll (List.Pairwise.filter _ hordered),
      Fields.get?_filter fun key => !attrs.any fun p => p.name == key]
    by_cases hkey : ∃ p ∈ attrs, p.name = key
    · obtain ⟨p, hp, rfl⟩ := hkey
      have hdeclared : (attrs.any fun q => q.name == p.name) = true :=
        List.any_eq_true.mpr ⟨p, hp, beq_self_eq_true _⟩
      rw [hdeclared, get?_gather_of_mem hp]
      rfl
    · have hne : ∀ p ∈ attrs, p.name ≠ key := fun p hp heq => hkey ⟨p, hp, heq⟩
      have hnot : (attrs.any fun q => q.name == key) = false := by
        simpa using hne
      rw [hnot, get?_cleanAttrs_of_ne hne]
      exact Option.or_none

/-- No list leaves a choice between types of items. -/
inductive Unambiguous : Param → Prop where
  | scalar {t : Traits} {type : Scalar} : Unambiguous (scalar t type)
  | dict {t : Traits} {attrs : List Param} {extensible : Bool}
      (hattrs : ∀ p ∈ attrs, Unambiguous p) : Unambiguous (dict t attrs extensible)
  | list {t : Traits} {items : List Param} (hone : items.length ≤ 1)
      (hitems : ∀ p ∈ items, Unambiguous p) : Unambiguous (list t items)

def Keeps (p : Param) (c : Json) : Prop := ∀ path, p.clean path (some c) [] = (some c, [])

/-- What the parameter gives, it keeps. -/
def Settles (p : Param) : Prop :=
  ∀ path value c, p.clean path value [] = (some c, []) → p.Keeps c

theorem keeps_null (h : p.traits.nullable = true) : p.Keeps .null := fun _ =>
  clean_null_iff.mpr ⟨rfl, h⟩

theorem keeps_gather (hnames : (attrs.map name).Nodup) (ih : ∀ p ∈ attrs, p.Settles)
    (hclean : (cleanAttrs attrs path fields [] []).2 = [])
    (hvalid : ∀ x ∈ t.validators, x.accepts (.obj (gather attrs extensible path fields))) :
    (dict t attrs extensible).Keeps (.obj (gather attrs extensible path fields)) := by
  intro path'
  have hagain : cleanAttrs attrs path' (gather attrs extensible path fields) [] [] =
      cleanAttrs attrs path fields [] [] := by
    refine (Alike.eq (cleanAttrs_alike fun p hp => ?_) hclean).symm
    have hattr := clean_attr extensible hnames hp hclean
    have hagain : clean p (joinPath path' p.name)
        ((gather attrs extensible path fields).get? p.name) [] =
        ((gather attrs extensible path fields).get? p.name, []) := by
      cases hc : (gather attrs extensible path fields).get? p.name with
      | some c =>
        rw [hc] at hattr
        exact ih p hp _ _ _ hattr _
      | none =>
        -- what is missing now was missing before, at another path
        rw [hc] at hattr
        cases hv : fields.get? p.name with
        | some v =>
          rw [hv] at hattr
          obtain ⟨c, hc⟩ := clean_present (congrArg Prod.snd hattr)
          cases hc.symm.trans (congrArg Prod.fst hattr)
        | none =>
          rw [hv] at hattr
          exact ((clean_alike p _ _ none).eq (congrArg Prod.snd hattr)).symm.trans hattr
    rw [hattr, hagain]
    exact ⟨rfl, Iff.rfl⟩
  have hsame : gather attrs extensible path' (gather attrs extensible path fields) =
      gather attrs extensible path fields := gather_gather (congrArg Prod.fst hagain)
  refine clean_obj_iff.mpr ⟨hagain ▸ hclean, ?_, congrArg Json.obj hsame.symm, hvalid⟩
  rintro rfl f hf
  exact declared_of_mem_gather hf

theorem cleanItems_fixed {values : List Json} {i : Nat}
    (h : ∀ v ∈ values, ∀ path, cleanItem items path v [] = (some v, [])) :
    cleanItems (cleanItem items) path i values [] = (values, []) := by
  induction values generalizing i with
  | nil => rfl
  | cons v vs ih =>
    simp only [cleanItems, h v List.mem_cons_self,
      ih (i := i + 1) fun w hw => h w (List.mem_cons_of_mem _ hw)]
    rfl

theorem cleanItem_again (hone : items.length ≤ 1) (ih : ∀ p ∈ items, p.Settles)
    (h : cleanItem items path v [] = (some c, [])) (path' : String) :
    cleanItem items path' c [] = (some c, []) := by
  match items with
  | [] => rfl
  | [item] =>
    rcases of_cleanItem h with ⟨hnil, -⟩ | ⟨p, hp, hclean⟩
    · cases hnil
    · cases List.mem_singleton.mp hp
      simp only [cleanItem, ih item hp _ _ _ hclean path']

theorem WellFormed.settles (h : p.WellFormed) (hu : p.Unambiguous) : p.Settles := by
  induction h with
  | scalar hdefault =>
    intro path value c hc
    refine of_clean hdefault keeps_null (fun hv h path' => ?_) nofun hc
    obtain ⟨hcoerce, hvalid⟩ := (clean_scalar_iff hv).mp h
    have hhas := Scalar.has_of_coerce? hv hcoerce
    exact (clean_scalar_iff (Scalar.ne_null_of_has hhas)).mpr
      ⟨Scalar.coerce?_of_has hhas, hvalid⟩
  | dict hdefault hfree hnames _ ih =>
    cases hu with | dict hattrs =>
    have hsettle := fun p hp => ih p hp (hattrs p hp)
    intro path value c hc
    refine of_clean hdefault keeps_null (fun hv h => ?_) (fun heq hrequired hnone hclean => ?_) hc
    · obtain ⟨fields, rfl⟩ := obj_of_clean_dict hv h
      obtain ⟨hclean, -, rfl, hvalid⟩ := clean_obj_iff.mp h
      exact keeps_gather hnames hsettle hclean hvalid
    · cases heq
      refine keeps_gather hnames hsettle hclean fun x hx => ?_
      rw [hfree hrequired hnone] at hx
      cases hx
  | list hdefault _ ih =>
    cases hu with | list hone hitems =>
    have hsettle := fun p hp => ih p hp (hitems p hp)
    intro path value c hc
    refine of_clean hdefault keeps_null (fun hv h path' => ?_) nofun hc
    obtain ⟨values, rfl⟩ := arr_of_clean_list hv h
    rw [clean_arr, check_eq_iff] at h
    obtain ⟨rfl, hclean, hvalid⟩ := h
    rw [clean_arr, cleanItems_fixed fun w hw path => ?_]
    · exact check_eq_iff.mpr ⟨rfl, rfl, hvalid⟩
    · obtain ⟨itemPath, v, -, hitem⟩ := mem_cleanItems hclean hw
      exact cleanItem_again hone hsettle hitem path

end Param

/-- What a well-formed schema lets through is let through again as it is, if no list leaves a choice
between types of items. -/
theorem clean_cleaned {p : Param} (hp : p.WellFormed) (hu : p.Unambiguous) {path : String}
    {value : Option Json} {errors : FieldErrors} {c : Json}
    (h : p.clean path value errors = (some c, errors)) (path' : String) (errors' : FieldErrors) :
    p.clean path' (some c) errors' = (some c, errors') :=
  Param.clean_eq_iff.mpr (hp.settles hu _ _ _ (Param.clean_eq_iff.mp h) path')

theorem unambiguous_networkSchema : networkSchema.Unambiguous := by
  refine .dict fun p hp => ?_
  simp only [List.mem_cons, List.not_mem_nil, or_false] at hp
  rcases hp with rfl | rfl | rfl | rfl
  · exact .scalar
  · exact .scalar
  · exact .dict fun p hp => List.mem_singleton.mp hp ▸ .scalar
  · exact .list (by decide) fun p hp => List.mem_singleton.mp hp ▸ .scalar

/-- A network that is cleaned without options and with a number for its name: the second time, what
the first cleaning made of it is kept. -/
theorem clean_cleaned_network :
    networkSchema.WellFormed ∧ networkSchema.Unambiguous ∧
      networkSchema.clean "network" (some (.obj [("name", .nat 7),
        ("routes", .arr [.str "0:0:0:0:0:0:0:1"]), ("site", .bool true)])) [] =
        (some (.obj [("name", .str "7"), ("options", .obj [("mtu", .nat 1500)]),
          ("routes", .arr [.str "::1"]), ("site", .bool true)]), []) ∧
      networkSchema.clean "" (some (.obj [("name", .str "7"),
        ("options", .obj [("mtu", .nat 1500)]), ("routes", .arr [.str "::1"]),
        ("site", .bool true)])) [] =
        (some (.obj [("name", .str "7"), ("options", .obj [("mtu", .nat 1500)]),
          ("routes", .arr [.str "::1"]), ("site", .bool true)]), []) := by
  have hclean : networkSchema.clean "network" (some (.obj [("name", .nat 7),
      ("routes", .arr [.str "0:0:0:0:0:0:0:1"]), ("site", .bool true)])) [] =
      (some (.obj [("name", .str "7"), ("options", .obj [("mtu", .nat 1500)]),
        ("routes", .arr [.str "::1"]), ("site", .bool true)]), []) := by
    rfl
  exact ⟨wellFormed_networkSchema, unambiguous_networkSchema, hclean,
    clean_cleaned wellFormed_networkSchema unambiguous_networkSchema hclean "" []⟩

end Switchboard
