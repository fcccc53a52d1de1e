import Mathlib.Data.List.Nodup
import Mathlib.Logic.Relation
import Switchboard.Crud.Shelf
import Switchboard.Proofs.Schema.Cleaning

namespace Switchboard

namespace Param

variable {p : Param} {ps : List Param} {path : String} {fields cleaned : Fields}
  {errors : FieldErrors}

theorem get?_cleanAttrs_of_ne {key : String} (hkey : ∀ p ∈ ps, p.name ≠ key) :
    (cleanAttrs ps path fields cleaned errors).1.get? key = cleaned.get? key := by
  induction ps generalizing cleaned errors with
  | nil => rfl
  | cons p rest ih =>
    have hrest : ∀ q ∈ rest, q.name ≠ key := fun q hq => hkey q (List.mem_cons_of_mem _ hq)
    simp only [cleanAttrs]
    rw [ih hrest]
    split
    next => rw [Fields.get?_insert, if_neg (hkey p List.mem_cons_self).symm]
    next => rfl

theorem get?_cleanAttrs (hnames : (ps.map name).Nodup) (hp : p ∈ ps) :
    (cleanAttrs ps path fields cleaned errors).1.get? p.name =
      ((clean p (joinPath path p.name) (fields.get? p.name) []).1).or (cleaned.get? p.name) := by
  induction ps generalizing cleaned errors with
  | nil => cases hp
  | cons q rest ih =>
    rw [List.map_cons, List.nodup_cons] at hnames
    simp only [cleanAttrs]
    rw [clean_append]
    rcases List.mem_cons.mp hp with rfl | hp
    · have hne : ∀ r ∈ rest, r.name ≠ p.name := fun r hr heq =>
        hnames.1 (List.mem_map.mpr ⟨r, hr, heq⟩)
      rw [get?_cleanAttrs_of_ne hne]
      cases (clean p (joinPath path p.name) (fields.get? p.name) []).1 with
      | none => rfl
      | some v => simp [Fields.get?_insert]
    · have hne : p.name ≠ q.name := fun heq => hnames.1 (List.mem_map.mpr ⟨p, hp, heq⟩)
      rw [ih hnames.2 hp]
      congr 1
      split
      next => rw [Fields.get?_insert, if_neg hne]
      next => rfl

theorem cleanAttrs_clean (h : (cleanAttrs ps path fields cleaned []).2 = []) (hp : p ∈ ps) :
    (clean p (joinPath path p.name) (fields.get? p.name) []).2 = [] := by
  induction ps generalizing cleaned with
  | nil => cases hp
  | cons q rest ih =>
    simp only [cleanAttrs] at h
    rw [cleanAttrs_append] at h
    obtain ⟨hq, hrest⟩ := List.append_eq_nil_iff.mp h
    rcases List.mem_cons.mp hp with rfl | hp
    · exact hq
    · exact ih hrest hp

theorem clean_present {v : Json} (h : (clean p path (some v) []).2 = []) :
    ∃ c, (clean p path (some v) []).1 = some c := by
  cases p with
  | scalar t type =>
    cases v with
    | null =>
      cases hn : t.nullable with
      | true => exact ⟨.null, by simp [clean, hn]⟩
      | false => simp [clean, hn] at h
    | _ =>
      simp only [clean] at h ⊢
      split at h
      next c _ => exact ⟨c, check_value t path [] _⟩
      next => simp at h
  | dict t attrs extensible =>
    cases v with
    | null =>
      cases hn : t.nullable with
      | true => exact ⟨.null, by simp [clean, hn]⟩
      | false => simp [clean, hn] at h
    | obj fields => exact ⟨_, check_value t path [] _⟩
    | _ => simp [clean] at h
  | list t items =>
    cases v with
    | null =>
      cases hn : t.nullable with
      | true => exact ⟨.null, by simp [clean, hn]⟩
      | false => simp [clean, hn] at h
    | arr values =>
      cases items with
      | nil => exact ⟨_, check_value t path [] _⟩
      | cons _ rest => cases rest <;> exact ⟨_, check_value t path [] _⟩
    | _ => simp [clean] at h

theorem clean_obj {t : Traits} {extensible : Bool} {v : Json}
    (h : clean (dict t ps extensible) path (some (.obj fields)) [] = (some v, [])) :
    (cleanAttrs ps path fields [] []).2 = [] ∧
      (extensible = false → ∀ f ∈ fields, ∃ p ∈ ps, p.name = f.1) ∧
      v = .obj (cleanOthers ps extensible path fields (cleanAttrs ps path fields [] []).1 []).1 := by
  simp only [clean] at h
  have hvalue := congrArg Prod.fst h
  have herrors := check_clean (congrArg Prod.snd h)
  rw [check_value] at hvalue
  have hsplit := cleanOthers_append ps extensible path fields
    (cleanAttrs ps path fields [] []).1 (cleanAttrs ps path fields [] []).2 []
  rw [List.append_nil] at hsplit
  simp only [hsplit] at hvalue herrors
  obtain ⟨hattrs, hothers⟩ := List.append_eq_nil_iff.mp herrors
  refine ⟨hattrs, fun hext f hf => ?_, (Option.some.inj hvalue).symm⟩
  subst hext
  simp only [cleanOthers, Bool.false_eq_true, if_false, List.nil_append, List.map_eq_nil_iff,
    List.filter_eq_nil_iff] at hothers
  simpa using hothers f hf

mutual

/-- No dictionary of the schema has two attributes of one name. -/
def NamesApart : Param → Prop
  | scalar _ _ => True
  | dict _ attrs _ => (attrs.map name).Nodup ∧ NamesApartAll attrs
  | list _ items => NamesApartAll items

def NamesApartAll : List Param → Prop
  | [] => True
  | p :: ps => p.NamesApart ∧ NamesApartAll ps

end

mutual

/-- What stands for an attribute that an update leaves out. -/
def hollow : Param → Option Json
  | dict _ attrs _ => some (.obj (hollowAll attrs []))
  | scalar _ _ | list _ _ => none

def hollowAll : List Param → Fields → Fields
  | [], cleaned => cleaned
  | p :: ps, cleaned =>
    hollowAll ps (match hollow p with
      | some v => cleaned.insert p.name v
      | none => cleaned)

end

def attrs : Param → List Param
  | dict _ attrs _ => attrs
  | scalar _ _ | list _ _ => []

theorem namesApart_of_mem (h : NamesApartAll ps) (hp : p ∈ ps) : p.NamesApart := by
  induction ps with
  | nil => cases hp
  | cons q rest ih =>
    rcases List.mem_cons.mp hp with rfl | hp
    · exact h.1
    · exact ih h.2 hp

theorem name_relax (p : Param) : p.relax.name = p.name := by
  cases p <;> rfl

theorem relaxAll_eq (ps : List Param) : relaxAll ps = ps.map relax := by
  induction ps with
  | nil => rfl
  | cons p rest ih => rw [relaxAll, ih, List.map_cons]

theorem map_name_relaxAll (ps : List Param) : (relaxAll ps).map name = ps.map name := by
  rw [relaxAll_eq, List.map_map]
  exact List.map_congr_left fun p _ => name_relax p

mutual

theorem clean_relax_none : ∀ (p : Param) (path : String) (errors : FieldErrors),
    clean p.relax path none errors = (p.hollow, errors)
  | scalar t type, _, _ => rfl
  | list t items, _, _ => rfl
  | dict t attrs extensible, path, errors => by
    have hattrs := cleanAttrs_relaxAll attrs path [] errors
    simp only [relax, clean, Traits.relax, Bool.false_eq_true, if_false, hattrs, hollow]

theorem cleanAttrs_relaxAll : ∀ (ps : List Param) (path : String) (cleaned : Fields)
    (errors : FieldErrors),
    cleanAttrs (relaxAll ps) path [] cleaned errors = (hollowAll ps cleaned, errors)
  | [], _, _, _ => rfl
  | p :: ps, path, cleaned, errors => by
    have hget : Fields.get? [] p.name = none := rfl
    simp only [relaxAll, cleanAttrs, name_relax, hget, clean_relax_none p, hollowAll]
    exact cleanAttrs_relaxAll ps path _ errors

end

end Param

/-- A dictionary at some depth of an update: the attributes it may have, the fields that were given
for it and those it came to have. -/
structure Layer where
  attrs : List Param
  given : Fields
  cleaned : Fields

namespace Layer

/-- A dictionary is an attribute of another, and was given in it as an object. -/
def Inside (outer inner : Layer) : Prop :=
  ∃ t extensible, .dict t inner.attrs extensible ∈ outer.attrs ∧
    outer.given.get? t.name = some (.obj inner.given) ∧
    outer.cleaned.get? t.name = some (.obj inner.cleaned)

def SameKeys (l : Layer) : Prop :=
  ∀ key, l.cleaned.contains key = true ↔ l.given.contains key = true

def Complete (l : Layer) : Prop :=
  ∀ t attrs extensible, .dict t attrs extensible ∈ l.attrs → l.given.contains t.name = true

/-- The fields are those that were given, and the dictionaries that were left out. -/
structure Keeps (l : Layer) : Prop where
  keys : ∀ key, l.cleaned.contains key = true ↔ l.given.contains key = true ∨
    ∃ t attrs extensible, .dict t attrs extensible ∈ l.attrs ∧ t.name = key
  objects : ∀ t attrs extensible inner, .dict t attrs extensible ∈ l.attrs →
    l.given.get? t.name = some (.obj inner) → ∃ c, l.cleaned.get? t.name = some (.obj c)
  leftOut : ∀ t attrs extensible, .dict t attrs extensible ∈ l.attrs →
    l.given.get? t.name = none →
    l.cleaned.get? t.name = some (.obj (Param.hollowAll attrs []))

def Cleaned (l : Layer) : Prop :=
  ∃ t extensible path, (Param.dict t l.attrs extensible).NamesApart ∧
    (Param.dict t l.attrs extensible).relax.clean path (some (.obj l.given)) [] =
      (some (.obj l.cleaned), [])

variable {l inner : Layer}

theorem Keeps.sameKeys_iff (h : l.Keeps) : l.SameKeys ↔ l.Complete := by
  constructor
  · intro hsame t attrs extensible hmem
    exact (hsame t.name).mp ((h.keys t.name).mpr (.inr ⟨t, attrs, extensible, hmem, rfl⟩))
  · intro hcomplete key
    rw [h.keys]
    constructor
    · rintro (hkey | ⟨t, attrs, extensible, hmem, rfl⟩)
      · exact hkey
      · exact hcomplete t attrs extensible hmem
    · exact .inl

/-- What becomes of one attribute of a cleaned layer. -/
structure Fares (l : Layer) (p : Param) (path : String) : Prop where
  clean : (p.relax.clean path (l.given.get? p.name) []).2 = []
  value : l.cleaned.get? p.name = (p.relax.clean path (l.given.get? p.name) []).1

theorem Cleaned.attr (h : l.Cleaned) {p : Param} (hp : p ∈ l.attrs) :
    p.NamesApart ∧ ∃ path, l.Fares p path := by
  obtain ⟨t, extensible, path, ⟨hnames, hapart⟩, hclean⟩ := h
  obtain ⟨hattrs, -, hcleaned⟩ := Param.clean_obj hclean
  have hmem : p.relax ∈ Param.relaxAll l.attrs := by
    rw [Param.relaxAll_eq]
    exact List.mem_map_of_mem hp
  have hnames' : ((Param.relaxAll l.attrs).map Param.name).Nodup := by
    rw [Param.map_name_relaxAll]
    exact hnames
  have hvalue : (Param.cleanAttrs (Param.relaxAll l.attrs) path l.given [] []).1.get?
      p.relax.name = _ := Param.get?_cleanAttrs hnames' hmem
  have hnone : Fields.get? [] p.relax.name = none := rfl
  rw [hnone, Option.or_none, Param.name_relax] at hvalue
  refine ⟨Param.namesApart_of_mem hapart hp, joinPath path p.name, ?_, ?_⟩
  · simpa [Param.name_relax] using Param.cleanAttrs_clean hattrs hmem
  · rw [Json.obj.inj hcleaned, ← hvalue]
    cases extensible with
    | false => rfl
    | true =>
      refine Fields.get?_insertAll_of_ne (fun f hf heq => ?_) _
      have hother := (List.mem_filter.mp hf).2
      have hdeclared : (Param.relaxAll l.attrs).any (fun a => a.name == f.1) = true :=
        List.any_eq_true.mpr ⟨p.relax, hmem, by simp [Param.name_relax, heq]⟩
      simp [hdeclared] at hother

/-- A field that no attribute declares is there if and only if it was given. -/
theorem Cleaned.undeclared (h : l.Cleaned) {key : String} (hkey : ∀ p ∈ l.attrs, p.name ≠ key) :
    l.cleaned.contains key = true ↔ l.given.contains key = true := by
  obtain ⟨t, extensible, path, -, hclean⟩ := h
  obtain ⟨-, hothers, hcleaned⟩ := Param.clean_obj hclean
  have hnames : ∀ p ∈ Param.relaxAll l.attrs, p.name ≠ key := by
    intro p hp
    rw [Param.relaxAll_eq] at hp
    obtain ⟨q, hq, rfl⟩ := List.mem_map.mp hp
    exact Param.name_relax q ▸ hkey q hq
  have hattrs : (Param.cleanAttrs (Param.relaxAll l.attrs) path l.given [] []).1.contains key =
      false := by
    rw [Fields.contains, ← Fields.get?, Param.get?_cleanAttrs_of_ne hnames]
    rfl
  rw [Json.obj.inj hcleaned]
  cases extensible with
  | false =>
    have hnot : l.given.contains key ≠ true := by
      intro hgiven
      obtain ⟨v, hv⟩ := (Fields.contains_eq_true_iff_mem l.given key).mp hgiven
      obtain ⟨p, hp, hname⟩ := hothers rfl _ hv
      exact hnames p hp hname
    simp [Param.cleanOthers, hattrs, hnot]
  | true =>
    simp only [Param.cleanOthers, if_true]
    rw [Fields.contains_insertAll, hattrs, Fields.contains_eq_true_iff_mem]
    have hnone : (Param.relaxAll l.attrs).any (fun a => a.name == key) = false := by
      simpa using hnames
    simp [hnone]

theorem Cleaned.keeps (h : l.Cleaned) : l.Keeps where
  keys key := by
    by_cases hkey : ∃ p ∈ l.attrs, p.name = key
    · obtain ⟨p, hp, rfl⟩ := hkey
      obtain ⟨-, path, hfares⟩ := h.attr hp
      rw [Fields.contains_iff, Fields.contains_iff, hfares.value]
      cases hgiven : l.given.get? p.name with
      | some v =>
        have hclean := hfares.clean
        rw [hgiven] at hclean
        simpa using Param.clean_present hclean
      | none =>
        rw [Param.clean_relax_none]
        constructor
        · rintro ⟨v, hv⟩
          cases p with
          | dict t attrs extensible => exact .inr ⟨t, attrs, extensible, hp, rfl⟩
          | scalar t type => cases hv
          | list t items => cases hv
        · rintro (⟨v, hv⟩ | ⟨t, attrs, extensible, hmem, hname⟩)
          · cases hv
          · obtain ⟨-, -, -, ⟨hnames, -⟩, -⟩ := h
            have heq : p = .dict t attrs extensible :=
              List.inj_on_of_nodup_map hnames hp hmem hname.symm
            rw [heq]
            exact ⟨_, rfl⟩
    · have hne : ∀ p ∈ l.attrs, p.name ≠ key := fun p hp heq => hkey ⟨p, hp, heq⟩
      rw [h.undeclared hne]
      constructor
      · exact .inl
      · rintro (hgiven | ⟨t, attrs, extensible, hmem, hname⟩)
        · exact hgiven
        · exact absurd hname (hne _ hmem)
  objects t attrs extensible inner hmem hgiven := by
    obtain ⟨-, path, hfares⟩ := h.attr hmem
    have hclean := hfares.clean
    have hvalue := hfares.value
    have hgiven' : l.given.get? (Param.dict t attrs extensible).name = some (.obj inner) := hgiven
    rw [hgiven'] at hclean hvalue
    obtain ⟨c, hc⟩ := Param.clean_present hclean
    obtain ⟨-, -, hobj⟩ := Param.clean_obj (Prod.ext hc hclean)
    exact ⟨_, hvalue.trans (hc.trans (congrArg some hobj))⟩
  leftOut t attrs extensible hmem hgiven := by
    obtain ⟨-, path, hfares⟩ := h.attr hmem
    have hvalue := hfares.value
    have hgiven' : l.given.get? (Param.dict t attrs extensible).name = none := hgiven
    rw [hgiven', Param.clean_relax_none] at hvalue
    exact hvalue

theorem Cleaned.inside (h : l.Cleaned) (hinner : l.Inside inner) : inner.Cleaned := by
  obtain ⟨t, extensible, hmem, hgiven, hcleaned⟩ := hinner
  obtain ⟨hapart, path, hfares⟩ := h.attr hmem
  have hclean := hfares.clean
  have hvalue := hfares.value
  have hgiven' : l.given.get? (Param.dict t inner.attrs extensible).name =
    some (.obj inner.given) := hgiven
  rw [hgiven'] at hclean hvalue
  exact ⟨t, extensible, path, hapart, Prod.ext (hvalue.symm.trans hcleaned) hclean⟩

theorem keeps_any (fields : Fields) : (⟨[], fields, fields⟩ : Layer).Keeps :=
  ⟨by simp, by simp, by simp⟩

end Layer

/-- A partial update that is cleaned without an error keeps, at every depth, the fields that were
given, and adds to them the dictionaries that were left out, with nothing but empty dictionaries in
them. So it adds nothing exactly where no dictionary is left out. -/
theorem update_adds_hollow_dictionaries {p : Param} {path : String} {given : Fields}
    {result : Option Json} (hnames : p.NamesApart)
    (h : p.relax.clean path (some (.obj given)) [] = (result, [])) :
    ∃ cleaned, result = some (.obj cleaned) ∧
      ∀ l, Relation.ReflTransGen Layer.Inside ⟨p.attrs, given, cleaned⟩ l →
        l.Keeps ∧ (l.SameKeys ↔ l.Complete) := by
  obtain ⟨v, hv⟩ := Param.clean_present (congrArg Prod.snd h)
  have hresult : result = some v := (congrArg Prod.fst h).symm.trans hv
  subst hresult
  cases p with
  | dict t attrs extensible =>
    obtain ⟨-, -, hobj⟩ := Param.clean_obj h
    have hcleaned : Layer.Cleaned ⟨attrs, given, _⟩ :=
      ⟨t, extensible, path, hnames, hobj ▸ h⟩
    refine ⟨_, congrArg some hobj, fun l hl => ?_⟩
    have hall : l.Cleaned := by
      induction hl with
      | refl => exact hcleaned
      | tail _ hinside ih => exact ih.inside hinside
    exact ⟨hall.keeps, hall.keeps.sameKeys_iff⟩
  | scalar t type =>
    have hany : v = .obj given := by
      cases type with
      | any =>
        have hkept : (Param.clean (Param.scalar t .any).relax path (some (.obj given)) []).1 =
            some (.obj given) := Param.check_value t.relax path [] _
        exact Option.some.inj (hv.symm.trans hkept)
      | _ => simp [Param.relax, Param.clean, Scalar.coerce?, coerceInt?, coerceFloat?] at h
    refine ⟨given, congrArg some hany, fun l hl => ?_⟩
    rcases Relation.ReflTransGen.cases_head hl with rfl | ⟨inner, ⟨t, extensible, hmem, -⟩, -⟩
    · exact ⟨Layer.keeps_any given, (Layer.keeps_any given).sameKeys_iff⟩
    · cases hmem
  | list t items => simp [Param.relax, Param.clean] at h

/-- Records with a name and options, of which one has a default. -/
def recordSchema : Param :=
  .dict { name := "record" } [.str "name", .dict { name := "options" }
    [.scalar { name := "mtu", default := some (.nat 1500) } .int] false] false

theorem namesApart_recordSchema : recordSchema.NamesApart := by
  simp [recordSchema, Param.NamesApart, Param.NamesApartAll, Param.name, Param.traits, Param.str]

theorem update_of_name_adds_hollow_options :
    recordSchema.NamesApart ∧
      recordSchema.relax.clean "record" (some (.obj [("name", .str "b")])) [] =
        (some (.obj [("name", .str "b"), ("options", .obj [])]), []) ∧
      ∃ cleaned, some (Json.obj [("name", .str "b"), ("options", .obj [])]) =
          some (.obj cleaned) ∧
        ∀ l, Relation.ReflTransGen Layer.Inside
            ⟨recordSchema.attrs, [("name", .str "b")], cleaned⟩ l →
          l.Keeps ∧ (l.SameKeys ↔ l.Complete) := by
  have hclean : recordSchema.relax.clean "record" (some (.obj [("name", .str "b")])) [] =
      (some (.obj [("name", .str "b"), ("options", .obj [])]), []) := rfl
  exact ⟨namesApart_recordSchema, hclean,
    update_adds_hollow_dictionaries namesApart_recordSchema hclean⟩

/-- An update of the name alone brings in options, and they take the place of those that a record
has. -/
theorem update_of_name_empties_options :
    recordSchema.NamesApart ∧
      Accepts.clean [(Param.int "id").require, recordSchema.relax]
          [.nat 1, .obj [("name", .str "b")]] =
        .ok [.nat 1, .obj [("name", .str "b"), ("options", .obj [])]] ∧
      (((⟨[.obj [("id", .nat 1), ("name", .str "a"), ("options", .obj [("mtu", .nat 9000)])]],
          2⟩ : Shelf).update? "id" (.nat 1)
        (.obj [("name", .str "b"), ("options", .obj [])])).map Prod.fst) =
        some (.obj [("id", .nat 1), ("name", .str "b"), ("options", .obj [])]) ∧
      ¬ (⟨recordSchema.attrs, [("name", .str "b")],
        [("name", .str "b"), ("options", .obj [])]⟩ : Layer).SameKeys := by
  refine ⟨namesApart_recordSchema, rfl, rfl, fun h => ?_⟩
  have hgiven := (h "options").mp rfl
  cases hgiven

end Switchboard
