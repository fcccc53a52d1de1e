import Switchboard.Proofs.Schema.Conformance

namespace Switchboard

namespace Param

variable {p item : Param} {t : Traits} {attrs items : List Param} {extensible : Bool}
  {path place : String} {fields : Fields} {v c : Json}

def valueOf (p : Param) (path : String) (value : Option Json) : Option Json :=
  (p.clean path value []).1

def errorsOf (p : Param) (path : String) (value : Option Json) : FieldErrors :=
  (p.clean path value []).2

def admits (p : Param) (path : String) (v : Json) : Bool := (p.errorsOf path (some v)).isEmpty

theorem admits_iff : p.admits path v = true ↔ p.errorsOf path (some v) = [] := List.isEmpty_iff

def violations (t : Traits) (path : String) (c : Json) : FieldErrors :=
  (t.validators.filterMap fun x => x.violation? c).map fun violation =>
    (Fault.violated violation).at path

/-- A value is cleaned, with the errors that are found in its parts, or if there are none with those
of the conditions that it breaks. -/
def Reports (p : Param) (path : String) (v c : Json) (found : FieldErrors) : Prop :=
  p.valueOf path (some v) = some c ∧
    p.errorsOf path (some v) = if found = [] then violations p.traits path c else found

theorem check_eq (t : Traits) (path : String) (c : Json) (found : FieldErrors) :
    check t path [] (some c, found) =
      (some c, if found = [] then violations t path c else found) := by
  cases found with
  | nil => rfl
  | cons e rest => rfl

theorem reports_of_clean {found : FieldErrors}
    (h : p.clean path (some v) [] = check p.traits path [] (some c, found)) :
    p.Reports path v c found := by
  rw [check_eq] at h
  exact ⟨congrArg Prod.fst h, congrArg Prod.snd h⟩

theorem cleanAttrs_errors (attrs : List Param) (path : String) (fields cleaned : Fields) :
    (cleanAttrs attrs path fields cleaned []).2 =
      attrs.flatMap fun p => p.errorsOf (joinPath path p.name) (fields.get? p.name) := by
  induction attrs generalizing cleaned with
  | nil => rfl
  | cons p rest ih =>
    simp only [cleanAttrs]
    rw [cleanAttrs_append, ih, List.flatMap_cons]
    rfl

def undeclared (attrs : List Param) (fields : Fields) : List String :=
  fields.keys.filter fun key => !attrs.any fun p => p.name == key

theorem unexpected_eq (attrs : List Param) (path : String) (fields : Fields) :
    unexpected attrs false path fields =
      (undeclared attrs fields).map fun key => Fault.unexpected.at (joinPath path key) := by
  rw [undeclared, Fields.keys, List.filter_map, List.map_map]
  rfl

theorem reports_dict (t : Traits) (attrs : List Param) (extensible : Bool) (path : String)
    (fields : Fields) :
    (dict t attrs extensible).Reports path (.obj fields)
      (.obj (gather attrs extensible path fields))
      ((attrs.flatMap fun p => p.errorsOf (joinPath path p.name) (fields.get? p.name)) ++
        if extensible then []
        else (undeclared attrs fields).map fun key => Fault.unexpected.at (joinPath path key)) := by
  refine reports_of_clean ?_
  rw [clean_obj_eq, cleanAttrs_errors]
  cases extensible with
  | true => rfl
  | false =>
    rw [unexpected_eq]
    rfl

/-- The first type that admits an item cleans it. -/
def Takes (items : List Param) (path : String) (v c : Json) : Prop :=
  ∃ p, items.find? (admits · path v) = some p ∧ p.valueOf path (some v) = some c

theorem clean_eq (p : Param) (path : String) (v : Json) :
    p.clean path (some v) [] = (p.valueOf path (some v), p.errorsOf path (some v)) := rfl

theorem exists_takes (h : items.any (admits · path v) = true) : ∃ c, Takes items path v c := by
  obtain ⟨p, hp⟩ := Option.isSome_iff_exists.mp (List.find?_isSome.mpr (List.any_eq_true.mp h))
  have hadmits := List.find?_some hp
  obtain ⟨c, hc⟩ := clean_present (admits_iff.mp hadmits)
  exact ⟨c, p, hp, hc⟩

theorem cleanFirst_eq (items : List Param) (path : String) (v : Json) :
    cleanFirst items path v =
      (items.find? (admits · path v)).bind fun p => p.valueOf path (some v) := by
  induction items with
  | nil => rfl
  | cons p rest ih =>
    rw [cleanFirst, clean_eq, List.find?_cons, admits]
    cases p.errorsOf path (some v) with
    | nil => rfl
    | cons e more => exact ih

theorem cleanItem_of_takes (h : Takes items path v c) :
    cleanItem items path v [] = (some c, []) := by
  obtain ⟨p, hfind, hc⟩ := h
  match items with
  | [] => cases hfind
  | [item] =>
    have hadmits := List.find?_some hfind
    cases List.mem_singleton.mp (List.mem_of_find?_eq_some hfind)
    simp only [cleanItem]
    rw [clean_eq, admits_iff.mp hadmits, hc]
  | first :: second :: rest =>
    simp only [cleanItem]
    rw [cleanFirst_eq, hfind, Option.bind_some, hc]

theorem cleanItem_one_of_refuses (h : item.admits path v = false) :
    cleanItem [item] path v [] = (none, item.errorsOf path (some v)) := by
  simp only [cleanItem]
  rw [clean_eq]
  unfold admits at h
  cases herrors : item.errorsOf path (some v) with
  | nil => simp [herrors] at h
  | cons e rest => rfl

theorem cleanItem_of_all_refuse (hmany : 1 < items.length)
    (h : items.any (admits · path v) = false) :
    cleanItem items path v [] = (none, [(Fault.noItemType (items.map name)).at path]) := by
  have hfirst : cleanFirst items path v = none := by
    rw [cleanFirst_eq, List.find?_eq_none.mpr (List.any_eq_false.mp h), Option.bind_none]
  rcases items with _ | ⟨first, _ | ⟨second, rest⟩⟩
  · cases hmany
  · exact absurd hmany (Nat.lt_irrefl 1)
  · simp only [cleanItem]
    rw [hfirst]
    rfl

/-- The items of a list behind the first `i` of them, each with its path. -/
def places (path : String) : Nat → List Json → List (String × Json)
  | _, [] => []
  | i, v :: vs => (joinPath path (toString i), v) :: places path (i + 1) vs

theorem cleanItems_errors (items : List Param) (path : String) (i : Nat) (values : List Json) :
    (cleanItems (cleanItem items) path i values []).2 =
      (places path i values).flatMap fun q => (cleanItem items q.1 q.2 []).2 := by
  induction values generalizing i with
  | nil => rfl
  | cons v vs ih =>
    simp only [cleanItems, places]
    rw [cleanItems_append (cleanItem_append items), ih, List.flatMap_cons]

theorem cleanItems_takes (hne : items ≠ []) (path : String) (i : Nat) (values : List Json) :
    List.Forall₂ (fun q c => Takes items q.1 q.2 c)
      ((places path i values).filter fun q => items.any (admits · q.1 q.2))
      (cleanItems (cleanItem items) path i values []).1 := by
  induction values generalizing i with
  | nil => exact .nil
  | cons v vs ih =>
    simp only [cleanItems, places]
    rw [cleanItems_append (cleanItem_append items), List.filter_cons]
    generalize hplace : joinPath path (toString i) = place
    dsimp only
    cases hany : items.any (admits · place v) with
    | true =>
      obtain ⟨c, hc⟩ := exists_takes hany
      rw [cleanItem_of_takes hc]
      exact .cons hc (ih (i + 1))
    | false =>
      have hnone : (cleanItem items place v []).1 = none := by
        rcases items with _ | ⟨first, _ | ⟨second, rest⟩⟩
        · exact absurd rfl hne
        · rw [cleanItem_one_of_refuses (by simpa using hany)]
        · rw [cleanItem_of_all_refuse (by simp) hany]
      rw [hnone]
      exact ih (i + 1)

theorem reports_list (t : Traits) (items : List Param) (path : String) (values : List Json) :
    (list t items).Reports path (.arr values)
      (.arr (cleanItems (cleanItem items) path 0 values []).1)
      ((places path 0 values).flatMap fun q => (cleanItem items q.1 q.2 []).2) := by
  refine reports_of_clean ?_
  rw [clean_arr, cleanItems_errors]
  rfl

theorem errors_of_one (item : Param) (places : List (String × Json)) :
    (places.flatMap fun q => (cleanItem [item] q.1 q.2 []).2) =
      places.flatMap fun q => item.errorsOf q.1 (some q.2) := by
  refine List.flatMap_congr fun q _ => ?_
  cases hadmits : item.admits q.1 q.2 with
  | true =>
    have hany : [item].any (admits · q.1 q.2) = true := by simpa using hadmits
    obtain ⟨c, hc⟩ := exists_takes hany
    rw [cleanItem_of_takes hc, admits_iff.mp hadmits]
  | false => rw [cleanItem_one_of_refuses hadmits]

theorem errors_of_several (hmany : 1 < items.length) (places : List (String × Json)) :
    (places.flatMap fun q => (cleanItem items q.1 q.2 []).2) =
      (places.filter fun q => !items.any (admits · q.1 q.2)).map fun q =>
        (Fault.noItemType (items.map name)).at q.1 := by
  induction places with
  | nil => rfl
  | cons q rest ih =>
    rw [List.flatMap_cons, List.filter_cons, ih]
    cases hany : items.any (admits · q.1 q.2) with
    | true =>
      obtain ⟨c, hc⟩ := exists_takes hany
      rw [cleanItem_of_takes hc]
      rfl
    | false =>
      rw [cleanItem_of_all_refuse hmany hany]
      rfl

/-- The place is that of the value, or inside of it if the value has a path. -/
def Lies (path place : String) : Prop :=
  place = path ∨ (path ≠ "" → ∃ rest, place = path ++ "." ++ rest)

theorem lies_inside (path child : String) : Lies path (joinPath path child) := by
  refine .inr fun hpath => ⟨child, ?_⟩
  rw [joinPath, if_neg (by simpa using hpath)]

theorem Lies.trans {child : String} (h : Lies (joinPath path child) place) : Lies path place := by
  refine .inr fun hpath => ?_
  have hjoin : joinPath path child = path ++ "." ++ child := by
    rw [joinPath, if_neg (by simpa using hpath)]
  have hne : joinPath path child ≠ "" := by
    rw [hjoin]
    simp [String.append_eq_empty_iff, hpath]
  rcases h with rfl | h
  · exact ⟨child, hjoin⟩
  · obtain ⟨rest, rfl⟩ := h hne
    exact ⟨child ++ "." ++ rest, by rw [hjoin]; simp only [String.append_assoc]⟩

theorem Reports.mem {found : FieldErrors} (h : p.Reports path v c found) {e : FieldError}
    (he : e ∈ p.errorsOf path (some v)) : e ∈ found ∨ e.path = path := by
  rw [h.2] at he
  split at he
  next =>
    obtain ⟨violation, -, rfl⟩ := List.mem_map.mp he
    exact .inr rfl
  next => exact .inl he

theorem mem_places {values : List Json} {i : Nat} {q : String × Json}
    (hq : q ∈ places path i values) : ∃ j : Nat, q.1 = joinPath path (toString j) := by
  induction values generalizing i with
  | nil => cases hq
  | cons v vs ih =>
    rcases List.mem_cons.mp hq with rfl | hq
    · exact ⟨i, rfl⟩
    · exact ih hq

theorem lies_of_mem_cleanItem
    (h : ∀ p ∈ items, ∀ e ∈ p.errorsOf path (some v), Lies path e.path) :
    ∀ e ∈ (cleanItem items path v []).2, Lies path e.path := by
  intro e he
  cases hany : items.any (admits · path v) with
  | true =>
    obtain ⟨c, hc⟩ := exists_takes hany
    rw [cleanItem_of_takes hc] at he
    cases he
  | false =>
    rcases items with _ | ⟨item, _ | ⟨second, rest⟩⟩
    · cases he
    · rw [cleanItem_one_of_refuses (by simpa using hany)] at he
      exact h item List.mem_cons_self e he
    · rw [cleanItem_of_all_refuse (by simp) hany] at he
      exact .inl (List.mem_singleton.mp he ▸ rfl)

theorem lies_of_null {e : FieldError} (he : e ∈ p.errorsOf path (some .null)) :
    Lies path e.path := by
  cases p <;>
  · simp only [errorsOf, clean] at he
    split at he
    next => cases he
    next => exact .inl (List.mem_singleton.mp he ▸ rfl)

/-- What is missing has an error of its own, or is a dictionary that is made of what is missing in
it. -/
theorem lies_of_none {e : FieldError}
    (h : ∀ q ∈ p.attrs, ∀ given, ∀ e ∈ q.errorsOf (joinPath path q.name) given,
      Lies (joinPath path q.name) e.path)
    (he : e ∈ p.errorsOf path none) : Lies path e.path := by
  cases p with
  | scalar t type | list t items =>
    simp only [errorsOf, clean] at he
    split at he
    next => exact .inl (List.mem_singleton.mp he ▸ rfl)
    next => cases he
  | dict t attrs extensible =>
    simp only [errorsOf, clean] at he
    split at he
    next => exact .inl (List.mem_singleton.mp he ▸ rfl)
    next =>
      split at he
      next => cases he
      next =>
        rw [cleanAttrs_errors] at he
        obtain ⟨q, hq, hmem⟩ := List.mem_flatMap.mp he
        exact (h q hq _ e hmem).trans

theorem lies_scalar {type : Scalar} {e : FieldError}
    (he : e ∈ (scalar t type).errorsOf path (some v)) : Lies path e.path := by
  by_cases hv : v = .null
  · exact lies_of_null (hv ▸ he)
  · have hclean : clean (scalar t type) path (some v) [] = _ := clean_scalar_eq hv
    cases htype : type.coerce? v with
    | none =>
      rw [htype] at hclean
      rw [errorsOf, hclean] at he
      exact .inl (List.mem_singleton.mp he ▸ rfl)
    | some c =>
      rw [htype] at hclean
      have hpath := (reports_of_clean (p := scalar t type) hclean).mem he
      exact .inl (hpath.resolve_left List.not_mem_nil)

theorem lies_dict {e : FieldError}
    (h : ∀ q ∈ attrs, ∀ given, ∀ e ∈ q.errorsOf (joinPath path q.name) given,
      Lies (joinPath path q.name) e.path)
    (he : e ∈ (dict t attrs extensible).errorsOf path (some v)) : Lies path e.path := by
  cases v with
  | null => exact lies_of_null he
  | obj fields =>
    rcases (reports_dict t attrs extensible path fields).mem he with hfound | hpath
    · rcases List.mem_append.mp hfound with hmem | hmem
      · obtain ⟨q, hq, hmem⟩ := List.mem_flatMap.mp hmem
        exact (h q hq _ e hmem).trans
      · split at hmem
        next => cases hmem
        next =>
          obtain ⟨key, -, rfl⟩ := List.mem_map.mp hmem
          exact lies_inside path key
    · exact .inl hpath
  | _ => exact .inl (List.mem_singleton.mp he ▸ rfl)

theorem lies_list {e : FieldError}
    (h : ∀ p ∈ items, ∀ place v, ∀ e ∈ p.errorsOf place (some v), Lies place e.path)
    (he : e ∈ (list t items).errorsOf path (some v)) : Lies path e.path := by
  cases v with
  | null => exact lies_of_null he
  | arr values =>
    rcases (reports_list t items path values).mem he with hfound | hpath
    · obtain ⟨q, hq, hmem⟩ := List.mem_flatMap.mp hfound
      obtain ⟨j, hplace⟩ := mem_places hq
      have hlies := lies_of_mem_cleanItem (fun p hp => h p hp q.1 q.2) e hmem
      rw [hplace] at hlies
      exact hlies.trans
    · exact .inl hpath
  | _ => exact .inl (List.mem_singleton.mp he ▸ rfl)

theorem lies_of_mem_errorsOf : ∀ (p : Param) (path : String) (value : Option Json),
    ∀ e ∈ p.errorsOf path value, Lies path e.path
  | scalar t type, path, none => fun _ he =>
    lies_of_none (p := scalar t type) (fun q hq => absurd hq List.not_mem_nil) he
  | scalar t type, path, some v => fun _ he => lies_scalar he
  | dict t attrs extensible, path, value => by
    have hattrs : ∀ q ∈ attrs, ∀ given, ∀ e ∈ q.errorsOf (joinPath path q.name) given,
        Lies (joinPath path q.name) e.path := fun q hq given => lies_of_mem_errorsOf q _ given
    intro e he
    cases value with
    | none => exact lies_of_none (p := dict t attrs extensible) hattrs he
    | some v => exact lies_dict hattrs he
  | list t items, path, none => fun _ he =>
    lies_of_none (p := list t items) (fun q hq => absurd hq List.not_mem_nil) he
  | list t items, path, some v => by
    have hitems : ∀ q ∈ items, ∀ place v, ∀ e ∈ q.errorsOf place (some v), Lies place e.path :=
      fun q hq place v => lies_of_mem_errorsOf q place (some v)
    exact fun _ he => lies_list hitems he
termination_by p => sizeOf p
decreasing_by
  all_goals
    have hlt := List.sizeOf_lt_of_mem hq
    simp only [dict.sizeOf_spec, list.sizeOf_spec]
    omega

/-- Cleaning goes by parts: what was found before is left alone and makes no difference, and a
value is reported on as its parts are. -/
structure CleansByParts (p : Param) : Prop where
  appends : ∀ path value errors,
    p.clean path value errors = (p.valueOf path value, errors ++ p.errorsOf path value)
  dict : ∀ t attrs extensible, p = .dict t attrs extensible → ∀ path (fields : Fields), ∃ cleaned,
    p.Reports path (.obj fields) (.obj cleaned)
      ((attrs.flatMap fun q => q.errorsOf (joinPath path q.name) (fields.get? q.name)) ++
        if extensible then []
        else (undeclared attrs fields).map fun key => Fault.unexpected.at (joinPath path key))
  listOfOne : ∀ t item, p = .list t [item] → ∀ path values, ∃ cleaned,
    p.Reports path (.arr values) (.arr cleaned)
      ((places path 0 values).flatMap fun q => item.errorsOf q.1 (some q.2))
  /-- The items that no type admits have one error each, and what is left of the list are the
  others, each as the first type that admits it cleans it. -/
  listOfSeveral : ∀ t items, p = .list t items → 1 < items.length → ∀ path values, ∃ cleaned,
    p.Reports path (.arr values) (.arr cleaned)
      (((places path 0 values).filter fun q => !items.any (admits · q.1 q.2)).map fun q =>
        (Fault.noItemType (items.map name)).at q.1) ∧
    List.Forall₂ (fun q c => Takes items q.1 q.2 c)
      ((places path 0 values).filter fun q => items.any (admits · q.1 q.2)) cleaned
  located : ∀ path value, ∀ e ∈ p.errorsOf path value, Lies path e.path

theorem cleansByParts (p : Param) : p.CleansByParts where
  appends := clean_append p
  dict t attrs extensible heq path fields :=
    ⟨_, heq ▸ reports_dict t attrs extensible path fields⟩
  listOfOne t item heq path values := by
    have hreports := reports_list t [item] path values
    rw [errors_of_one] at hreports
    exact ⟨_, heq ▸ hreports⟩
  listOfSeveral t items heq hmany path values := by
    have hreports := reports_list t items path values
    rw [errors_of_several hmany] at hreports
    have hne : items ≠ [] := by
      rintro rfl
      cases hmany
    exact ⟨_, heq ▸ hreports, cleanItems_takes hne path 0 values⟩
  located := lies_of_mem_errorsOf p

end Param

namespace Accepts

theorem cleanEach_eq (params : List Param) (args : List Json) (i : Nat) :
    cleanEach params (args.drop i) [] =
      ((params.zipIdx i).map fun q => Json.ofOption (q.1.valueOf q.1.name args[q.2]?),
        (params.zipIdx i).flatMap fun q => q.1.errorsOf q.1.name args[q.2]?) := by
  induction params generalizing i with
  | nil => rfl
  | cons p rest ih =>
    simp only [cleanEach]
    rw [cleanEach_append, List.tail_drop, ih, List.head?_drop, List.zipIdx_cons, List.map_cons,
      List.flatMap_cons]
    rfl

def surplus (params : Accepts) (args : List Json) : FieldErrors :=
  if params.length < args.length then
    [(Fault.tooManyArguments params.length args.length).at "args"]
  else []

def errorsOf (params : Accepts) (args : List Json) : FieldErrors :=
  surplus params args ++ params.zipIdx.flatMap fun q => q.1.errorsOf q.1.name args[q.2]?

/-- A call is cleaned if there is no error, and each of the values is made of one argument. -/
structure CleansByParts (params : Accepts) (args : List Json) : Prop where
  ok_iff : ∀ values, clean params args = .ok values ↔
    args.length ≤ params.length ∧ (∀ q ∈ params.zipIdx, q.1.errorsOf q.1.name args[q.2]? = []) ∧
      values = params.zipIdx.map fun q => Json.ofOption (q.1.valueOf q.1.name args[q.2]?)
  error_iff : ∀ errors, clean params args = .error errors ↔
    errors ≠ [] ∧ errors = errorsOf params args

theorem clean_eq (params : Accepts) (args : List Json) :
    clean params args =
      if errorsOf params args = [] then
        .ok (params.zipIdx.map fun q => Json.ofOption (q.1.valueOf q.1.name args[q.2]?))
      else .error (errorsOf params args) := by
  have heach := cleanEach_eq params args 0
  rw [List.drop_zero] at heach
  have hall : cleanEach params args (surplus params args) =
      (params.zipIdx.map fun q => Json.ofOption (q.1.valueOf q.1.name args[q.2]?),
        errorsOf params args) := by
    rw [cleanEach_append, heach]
    rfl
  unfold clean
  dsimp only
  rw [← surplus, hall]
  cases errorsOf params args with
  | nil => rfl
  | cons e rest => rfl

theorem errorsOf_eq_nil_iff {params : Accepts} {args : List Json} : errorsOf params args = [] ↔
    args.length ≤ params.length ∧ ∀ q ∈ params.zipIdx, q.1.errorsOf q.1.name args[q.2]? = [] := by
  rw [errorsOf, List.append_eq_nil_iff, List.flatMap_eq_nil_iff]
  refine and_congr_left fun _ => ?_
  rw [surplus]
  split
  next hlt => simp [hlt]
  next hle => simpa using hle

theorem cleansByParts (params : Accepts) (args : List Json) : CleansByParts params args := by
  constructor
  · intro values
    rw [← and_assoc, ← errorsOf_eq_nil_iff, clean_eq]
    split
    next hnil => simp [hnil, eq_comm]
    next hne => simp [hne]
  · intro errors
    rw [clean_eq]
    split
    next hnil => simp [hnil]
    next hne =>
      rw [Except.error.injEq]
      constructor
      · rintro rfl
        exact ⟨hne, rfl⟩
      · exact fun h => h.2.symm

end Accepts

/-- Every value and every call is cleaned part by part, and all errors are reported. -/
theorem every_part_is_reported (p : Param) (params : Accepts) (args : List Json) :
    p.CleansByParts ∧ params.CleansByParts args :=
  ⟨p.cleansByParts, params.cleansByParts args⟩

end Switchboard
