import Switchboard.Schema.Clean

namespace Switchboard

namespace Fields

theorem get?_cons (f : String × Json) (rest : Fields) (key : String) :
    get? (f :: rest) key = if key = f.1 then some f.2 else rest.get? key := by
  rw [get?, List.lookup_cons]
  by_cases h : key = f.1
  · simp [h]
  · simp [h, beq_false_of_ne h, get?]

theorem get?_insert (fields : Fields) (key other : String) (v : Json) :
    (fields.insert key v).get? other = if other = key then some v else fields.get? other := by
  induction fields with
  | nil => exact get?_cons (key, v) [] other
  | cons f rest ih =>
    obtain ⟨k, w⟩ := f
    rw [insert]
    split
    next => exact get?_cons (key, v) _ other
    next =>
      split
      next hk =>
        subst hk
        rw [get?_cons, get?_cons]
        split <;> rfl
      next hne =>
        rw [get?_cons, ih, get?_cons]
        by_cases hother : other = k
        · have hne' : other ≠ key := fun h => hne (h.symm.trans hother)
          rw [if_pos hother, if_neg hne', if_pos hother]
        · simp [hother]

theorem contains_iff (fields : Fields) (key : String) :
    fields.contains key = true ↔ ∃ v, fields.get? key = some v :=
  Option.isSome_iff_exists

theorem get?_eq_none_iff (fields : Fields) (key : String) :
    fields.get? key = none ↔ ∀ f ∈ fields, f.1 ≠ key := by
  simp only [get?, List.lookup_eq_none_iff, bne_iff_ne, ne_eq]
  exact forall₂_congr fun f _ => ⟨fun h heq => h heq.symm, fun h heq => h heq.symm⟩

theorem contains_eq_true_iff_mem (fields : Fields) (key : String) :
    fields.contains key = true ↔ ∃ v, (key, v) ∈ fields := by
  have hnone := get?_eq_none_iff fields key
  rw [contains, ← get?, Option.isSome_iff_ne_none, ne_eq, hnone]
  constructor
  · intro h
    obtain ⟨f, hf⟩ := Classical.not_forall.mp h
    obtain ⟨hmem, heq⟩ := Classical.not_imp.mp hf
    exact ⟨f.2, Classical.not_not.mp heq ▸ hmem⟩
  · rintro ⟨v, hv⟩ h
    exact h _ hv rfl

theorem get?_insertAll_of_ne {more : List (String × Json)} {key : String}
    (h : ∀ f ∈ more, f.1 ≠ key) (fields : Fields) :
    (fields.insertAll more).get? key = fields.get? key := by
  unfold insertAll
  induction more generalizing fields with
  | nil => rfl
  | cons f rest ih =>
    rw [List.foldl_cons, ih (fun g hg => h g (List.mem_cons_of_mem _ hg)), get?_insert,
      if_neg (h f List.mem_cons_self).symm]

theorem contains_insertAll (fields : Fields) (more : List (String × Json)) (key : String) :
    (fields.insertAll more).contains key = true ↔
      fields.contains key = true ∨ ∃ v, (key, v) ∈ more := by
  unfold insertAll
  induction more generalizing fields with
  | nil => simp
  | cons f rest ih =>
    rw [List.foldl_cons, ih, contains, ← get?, get?_insert, contains, ← get?]
    by_cases hkey : key = f.1
    · subst hkey
      simp
      exact .inr ⟨f.2, .inl rfl⟩
    · have hne : ∀ v, ((key, v) : String × Json) ≠ f := fun v heq => hkey (congrArg Prod.fst heq)
      simp [hkey, hne]

end Fields

namespace Param

variable {path : String}

theorem check_append (t : Traits) (path : String) (errors found : FieldErrors)
    (value : Option Json) :
    check t path errors (value, errors ++ found) =
      ((check t path [] (value, found)).1, errors ++ (check t path [] (value, found)).2) := by
  cases value with
  | none => rfl
  | some v => cases found <;> simp [check]

theorem check_value (t : Traits) (path : String) (before : FieldErrors) (result : Cleaned) :
    (check t path before result).1 = result.1 := by
  obtain ⟨value, errors⟩ := result
  cases value with
  | none => rfl
  | some v =>
    simp only [check]
    split <;> rfl

/-- The check of the conditions takes no error back. -/
theorem check_clean {t : Traits} {before : FieldErrors} {result : Cleaned}
    (h : (check t path before result).2 = []) : result.2 = [] := by
  obtain ⟨value, errors⟩ := result
  cases value with
  | none => exact h
  | some v =>
    simp only [check] at h
    split at h
    next => exact (List.append_eq_nil_iff.mp h).1
    next => exact h

theorem cleanOthers_append (attrs : List Param) (extensible : Bool) (path : String)
    (fields cleaned : Fields) (errors found : FieldErrors) :
    cleanOthers attrs extensible path fields cleaned (errors ++ found) =
      ((cleanOthers attrs extensible path fields cleaned found).1,
        errors ++ (cleanOthers attrs extensible path fields cleaned found).2) := by
  cases extensible <;> simp [cleanOthers]

theorem cleanItems_append {clean : String → Json → FieldErrors → Cleaned}
    (hclean : ∀ path v errors, clean path v errors =
      ((clean path v []).1, errors ++ (clean path v []).2))
    (path : String) (i : Nat) (values : List Json) (errors : FieldErrors) :
    cleanItems clean path i values errors =
      ((cleanItems clean path i values []).1,
        errors ++ (cleanItems clean path i values []).2) := by
  induction values generalizing i errors with
  | nil => simp [cleanItems]
  | cons v vs ih =>
    simp only [cleanItems]
    rw [hclean _ v errors, ih (i + 1) (errors ++ _), ih (i + 1) (clean _ v []).2]
    simp

mutual

/-- The errors of cleaning a value are appended to those that are there, and do not depend on
them; neither does the value. -/
theorem clean_append : ∀ (p : Param) (path : String) (value : Option Json) (errors : FieldErrors),
    clean p path value errors =
      ((clean p path value []).1, errors ++ (clean p path value []).2)
  | scalar t type, path, value, errors => by
    cases value with
    | none => simp only [clean]; split <;> simp
    | some v =>
      cases v with
      | null => simp only [clean]; split <;> simp
      | _ =>
        simp only [clean]
        split
        next c _ => simpa using check_append t path errors [] (some c)
        next => simp
  | dict t attrs extensible, path, value, errors => by
    cases value with
    | none =>
      simp only [clean]
      split
      next => simp
      next =>
        split
        next => simp
        next => rw [cleanAttrs_append attrs path [] [] errors]
    | some v =>
      cases v with
      | null => simp only [clean]; split <;> simp
      | obj fields =>
        simp only [clean]
        rw [cleanAttrs_append attrs path fields [] errors, cleanOthers_append]
        exact check_append t path errors _ _
      | _ => simp [clean]
  | list t items, path, value, errors => by
    cases value with
    | none => simp only [clean]; split <;> simp
    | some v =>
      cases v with
      | null => simp only [clean]; split <;> simp
      | arr values =>
        match items with
        | [] =>
          simp only [clean]
          simpa using check_append t path errors [] (some (.arr values))
        | [item] =>
          simp only [clean]
          rw [cleanItems_append ?one path 0 values errors]
          case one =>
            intro itemPath v errors
            generalize clean item itemPath (some v) [] = result
            obtain ⟨cleaned, found⟩ := result
            cases found <;> simp
          exact check_append t path errors _ _
        | first :: second :: rest =>
          simp only [clean]
          rw [cleanItems_append (fun path v errors => by split <;> simp) path 0 values errors]
          exact check_append t path errors _ _
      | _ => simp [clean]

theorem cleanAttrs_append : ∀ (ps : List Param) (path : String) (fields cleaned : Fields)
    (errors : FieldErrors),
    cleanAttrs ps path fields cleaned errors =
      ((cleanAttrs ps path fields cleaned []).1,
        errors ++ (cleanAttrs ps path fields cleaned []).2)
  | [], _, _, _, _ => by simp [cleanAttrs]
  | p :: ps, path, fields, cleaned, errors => by
    simp only [cleanAttrs]
    rw [clean_append p (joinPath path p.name) (fields.get? p.name) errors]
    rw [cleanAttrs_append ps path fields _ (errors ++ _),
      cleanAttrs_append ps path fields _ (clean p _ _ []).2]
    simp

end

end Param

namespace Accepts

theorem cleanEach_append (params : List Param) (args : List Json) (errors : FieldErrors) :
    cleanEach params args errors =
      ((cleanEach params args []).1, errors ++ (cleanEach params args []).2) := by
  induction params generalizing args errors with
  | nil => simp [cleanEach]
  | cons p rest ih =>
    simp only [cleanEach]
    rw [p.clean_append, ih args.tail (errors ++ _), ih args.tail (p.clean p.name args.head? []).2]
    simp

theorem cleanEach_clean {params : List Param} {args : List Json}
    (h : (cleanEach params args []).2 = []) {i : Nat} {p : Param} (hp : params[i]? = some p) :
    ∃ value, p.clean p.name args[i]? [] = (value, []) ∧
      (cleanEach params args []).1[i]? = some (.ofOption value) := by
  induction params generalizing args i with
  | nil => cases hp
  | cons q rest ih =>
    simp only [cleanEach] at h ⊢
    rw [cleanEach_append] at h ⊢
    obtain ⟨hq, hrest⟩ := List.append_eq_nil_iff.mp h
    cases i with
    | zero =>
      cases hp
      rw [← List.head?_eq_getElem?]
      exact ⟨_, Prod.ext rfl hq, rfl⟩
    | succ i =>
      obtain ⟨value, hclean, hvalue⟩ := ih hrest hp
      rw [List.getElem?_tail] at hclean
      exact ⟨value, hclean, hvalue⟩

theorem length_cleanEach (params : List Param) (args : List Json) (errors : FieldErrors) :
    (cleanEach params args errors).1.length = params.length := by
  induction params generalizing args errors with
  | nil => rfl
  | cons p rest ih =>
    simp only [cleanEach, List.length_cons, ih]

theorem cleanEach_of_clean {params : Accepts} {args cleaned : List Json}
    (h : clean params args = .ok cleaned) : cleanEach params args [] = (cleaned, []) := by
  unfold clean at h
  dsimp only at h
  rw [cleanEach_append] at h
  split at h
  next heq =>
    cases h
    have hvalues := congrArg Prod.fst heq
    obtain ⟨-, herrors⟩ := List.append_eq_nil_iff.mp (congrArg Prod.snd heq)
    exact Prod.ext hvalues herrors
  next => cases h

theorem length_of_clean {params : Accepts} {args cleaned : List Json}
    (h : clean params args = .ok cleaned) : cleaned.length = params.length := by
  have hlength := length_cleanEach params args []
  rwa [cleanEach_of_clean h] at hlength

end Accepts

end Switchboard
