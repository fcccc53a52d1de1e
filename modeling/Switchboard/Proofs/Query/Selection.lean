import Switchboard.Proofs.Schema.Stability
import Switchboard.Query.Path

namespace Switchboard

theorem segmentsOf_ne_nil (cs : List Char) : segmentsOf cs ≠ [] := by
  cases cs with
  | nil => simp [segmentsOf]
  | cons c cs =>
    rw [segmentsOf]
    split
    next => simp
    next => split <;> simp

theorem dot_not_mem_of_mem_segmentsOf {cs s : List Char} (hs : s ∈ segmentsOf cs) : '.' ∉ s := by
  induction cs generalizing s with
  | nil =>
    have hnil : s = [] := by simpa [segmentsOf] using hs
    simp [hnil]
  | cons c cs ih =>
    rw [segmentsOf] at hs
    split at hs
    next =>
      rcases List.mem_cons.mp hs with rfl | hs
      · exact List.not_mem_nil
      · exact ih hs
    next hc =>
      have hne : '.' ≠ c := fun heq => hc heq.symm
      split at hs
      next hnil => exact absurd hnil (segmentsOf_ne_nil cs)
      next first rest hsegments =>
        rw [hsegments] at ih
        rcases List.mem_cons.mp hs with rfl | hs
        · have hfirst := ih (s := first) List.mem_cons_self
          intro hmem
          exact (List.mem_cons.mp hmem).elim hne hfirst
        · exact ih (List.mem_cons_of_mem _ hs)

theorem segmentsOf_of_no_dot {cs : List Char} (h : '.' ∉ cs) : segmentsOf cs = [cs] := by
  induction cs with
  | nil => rfl
  | cons c cs ih =>
    have hc : c ≠ '.' := fun heq => h (heq ▸ List.mem_cons_self)
    have hrest := ih fun hmem => h (List.mem_cons_of_mem _ hmem)
    simp [segmentsOf, hc, hrest]

theorem pathSegments_ne_nil (path : String) : pathSegments path ≠ [] := by
  have hne := segmentsOf_ne_nil path.toList
  simpa [pathSegments] using hne

theorem dot_not_mem_of_mem_pathSegments {path s : String} (hs : s ∈ pathSegments path) :
    '.' ∉ s.toList := by
  obtain ⟨cs, hcs, rfl⟩ := List.mem_map.mp hs
  have hdot := dot_not_mem_of_mem_segmentsOf hcs
  rwa [String.toList_ofList]

theorem pathSegments_of_no_dot {path : String} (h : '.' ∉ path.toList) :
    pathSegments path = [path] := by
  rw [pathSegments, segmentsOf_of_no_dot h, List.map_singleton, String.ofList_toList]

/-- In every object, down to every item of every list, the keys stand in order, each once. -/
inductive Json.Ordered : Json → Prop where
  | null : Ordered .null
  | bool (b : Bool) : Ordered (.bool b)
  | num (n : Number) : Ordered (.num n)
  | str (s : String) : Ordered (.str s)
  | arr {items : List Json} (h : ∀ v ∈ items, Ordered v) : Ordered (.arr items)
  | obj {fields : Fields} (hkeys : fields.Ordered) (h : ∀ f ∈ fields, Ordered f.2) :
      Ordered (.obj fields)

namespace Fields

variable {fields : Fields} {key : String} {u : Json}

theorem mem_of_get? {v : Json} (h : fields.get? key = some v) : (key, v) ∈ fields := by
  obtain ⟨before, after, rfl, -⟩ := List.lookup_eq_some_iff.mp h
  exact List.mem_append_right _ List.mem_cons_self

theorem exists_get?_iff_mem_keys : (∃ v, fields.get? key = some v) ↔ key ∈ fields.keys := by
  rw [← contains_iff, contains_eq_true_iff_mem, keys, List.mem_map]
  constructor
  · rintro ⟨v, hv⟩
    exact ⟨_, hv, rfl⟩
  · rintro ⟨f, hf, rfl⟩
    exact ⟨f.2, hf⟩

theorem Ordered.insert_same {v : Json} (h : fields.Ordered) (hget : fields.get? key = some v) :
    fields.insert key v = fields := by
  refine (h.insert key v).ext h fun other => ?_
  rw [get?_insert]
  split
  next heq => rw [heq, hget]
  next => rfl

/-- What stands at the first step after a value is set at the end of all steps, where there may have
been a value before. -/
def grown (u : Json) : List String → Option Json → Json
  | [], _ => u
  | steps, none => .obj (insertAt u steps [])
  | steps, some (.obj inner) => .obj (insertAt u steps inner)
  | _, some v => v

theorem insertAt_cons_cons (u : Json) (step next : String) (rest : List String) (fields : Fields) :
    insertAt u (step :: next :: rest) fields =
      match fields.get? step with
      | none => fields.insert step (.obj (insertAt u (next :: rest) []))
      | some (.obj inner) => fields.insert step (.obj (insertAt u (next :: rest) inner))
      | some _ => fields := rfl

theorem get?_insertAt (u : Json) (step : String) (rest : List String) (fields : Fields)
    (key : String) : (insertAt u (step :: rest) fields).get? key =
      if key = step then some (grown u rest (fields.get? step)) else fields.get? key := by
  cases rest with
  | nil =>
    rw [insertAt, get?_insert]
    rfl
  | cons next rest =>
    rw [insertAt_cons_cons]
    cases hstep : fields.get? step with
    | none => exact get?_insert ..
    | some v =>
      cases v with
      | obj inner => exact get?_insert ..
      | _ =>
        dsimp only [grown]
        split
        next heq => rw [heq, hstep]
        next => rfl

end Fields

namespace Json

variable {v w u : Json}

theorem Ordered.child (h : v.Ordered) {step : String} (hchild : v.child? step = some w) :
    w.Ordered := by
  cases h with
  | obj _ hfields => exact hfields _ (Fields.mem_of_get? hchild)
  | arr hitems =>
    obtain ⟨i, -, hi⟩ := Option.bind_eq_some_iff.mp hchild
    exact hitems w (List.mem_of_getElem? hi)
  | _ => cases hchild

theorem descend?_cons_eq_some {step : String} {rest : List String} :
    v.descend? (step :: rest) = some w ↔
      ∃ next, v.child? step = some next ∧ next.descend? rest = some w := by
  rw [descend?, Option.bind_eq_some_iff]

theorem descend?_obj (fields : Fields) (step : String) (rest : List String) :
    (obj fields).descend? (step :: rest) = (fields.get? step).bind fun next => next.descend? rest :=
  rfl

theorem descend?_of_get? {fields : Fields} {step : String} (h : fields.get? step = some v)
    (rest : List String) : (obj fields).descend? (step :: rest) = v.descend? rest := by
  rw [descend?_obj, h, Option.bind_some]

theorem insertAt_same {fields : Fields} {steps : List String} (h : (obj fields).Ordered)
    (hu : (obj fields).descend? steps = some u) : Fields.insertAt u steps fields = fields := by
  induction steps generalizing fields with
  | nil => rfl
  | cons step rest ih =>
    obtain ⟨next, hnext, hrest⟩ := descend?_cons_eq_some.mp hu
    have hget : fields.get? step = some next := hnext
    have hkeys : fields.Ordered := by
      cases h
      assumption
    cases rest with
    | nil =>
      cases Option.some.inj hrest
      exact hkeys.insert_same hget
    | cons second rest =>
      rw [Fields.insertAt_cons_cons, hget]
      cases next with
      | obj inner =>
        have hinner := ih (h.child hnext) hrest
        dsimp only
        rw [hinner, hkeys.insert_same hget]
      | _ => rfl

/-- A value shows another one, or is an object of parts of what is one step below the other. -/
inductive Shows : Json → Json → Prop where
  | whole (v : Json) : Shows v v
  | part {v : Json} {fields : Fields}
      (hkeys : ∀ key w, fields.get? key = some w → ∃ next, v.child? key = some next)
      (h : ∀ key w next, fields.get? key = some w → v.child? key = some next → Shows next w) :
      Shows v (.obj fields)

theorem shows_nothing (v : Json) : v.Shows (.obj []) :=
  .part (fun _ _ h => nomatch h) fun _ _ _ h => nomatch h

theorem Shows.descend {t : Json} {steps : List String} (h : v.Shows t)
    (hw : t.descend? steps = some w) : ∃ u, v.descend? steps = some u := by
  induction steps generalizing v t with
  | nil => exact ⟨v, rfl⟩
  | cons step rest ih =>
    cases h with
    | whole => exact ⟨w, hw⟩
    | part hkeys h =>
      obtain ⟨t', ht', hrest⟩ := descend?_cons_eq_some.mp hw
      obtain ⟨next, hnext⟩ := hkeys step t' ht'
      obtain ⟨u, hu⟩ := ih (h step t' next ht' hnext) hrest
      exact ⟨u, descend?_cons_eq_some.mpr ⟨next, hnext, hu⟩⟩

/-- A part has grown by what stands at the end of some steps, and has lost nothing. -/
structure Grows (v u : Json) (steps : List String) (before : Option Json) (after : Json) :
    Prop where
  shows : v.Shows after
  found : after.descend? steps = some u
  kept : ∀ other w, v.descend? other = some w → (∃ t ∈ before, t.descend? other = some w) →
    after.descend? other = some w

theorem grows_of_whole {steps : List String} (hu : v.descend? steps = some u)
    (before : Option Json) : v.Grows u steps before v :=
  ⟨.whole v, hu, fun _ _ hw _ => hw⟩

theorem grows_obj {fields : Fields} {step : String} {rest : List String} {next : Json}
    (hshows : v.Shows (obj fields)) (hne : v ≠ obj fields) (hnext : v.child? step = some next)
    (h : next.Grows u rest (fields.get? step) (Fields.grown u rest (fields.get? step))) :
    v.Grows u (step :: rest) (some (obj fields)) (obj (Fields.insertAt u (step :: rest) fields)) := by
  cases hshows with
  | whole => exact absurd rfl hne
  | part hkeys hparts =>
    refine ⟨.part (fun key w hw => ?_) (fun key w next' hw hnext' => ?_), ?_, ?_⟩
    · rw [Fields.get?_insertAt] at hw
      split at hw
      next heq => exact ⟨next, heq ▸ hnext⟩
      next => exact hkeys key w hw
    · rw [Fields.get?_insertAt] at hw
      split at hw
      next heq =>
        subst heq
        cases Option.some.inj hw
        cases Option.some.inj (hnext.symm.trans hnext')
        exact h.shows
      next => exact hparts key w next' hw hnext'
    · rw [descend?_obj, Fields.get?_insertAt, if_pos rfl]
      exact h.found
    · rintro other w hw ⟨t, ht, hother⟩
      cases Option.some.inj ht
      cases other with
      | nil =>
        cases Option.some.inj hw
        exact absurd (Option.some.inj hother).symm hne
      | cons first more =>
        rw [descend?_obj] at hother ⊢
        rw [Fields.get?_insertAt]
        split
        next heq =>
          subst heq
          obtain ⟨next', hnext', hmore⟩ := descend?_cons_eq_some.mp hw
          cases Option.some.inj (hnext.symm.trans hnext')
          obtain ⟨t', ht', hmore'⟩ := Option.bind_eq_some_iff.mp hother
          exact h.kept more w hmore ⟨t', ht', hmore'⟩
        next => exact hother

/-- A part of a value grows by anything that the value has, and remains a part of it. -/
theorem Ordered.grows {steps : List String} {before : Option Json} (hv : v.Ordered)
    (hshows : ∀ t ∈ before, v.Shows t) (hu : v.descend? steps = some u) :
    v.Grows u steps before (Fields.grown u steps before) := by
  induction steps generalizing v before with
  | nil =>
    cases Option.some.inj hu
    exact grows_of_whole hu before
  | cons step rest ih =>
    obtain ⟨next, hnext, hrest⟩ := descend?_cons_eq_some.mp hu
    have hobj : ∀ fields, v.Shows (.obj fields) → v.Grows u (step :: rest) (some (.obj fields))
        (.obj (Fields.insertAt u (step :: rest) fields)) := by
      intro fields hfields
      by_cases heq : v = .obj fields
      · subst heq
        rw [insertAt_same hv hu]
        exact grows_of_whole hu _
      · refine grows_obj hfields heq hnext (ih (hv.child hnext) (fun t ht => ?_) hrest)
        cases hfields with
        | whole => exact absurd rfl heq
        | part _ hparts => exact hparts step t next ht hnext
    cases before with
    | none =>
      have h := hobj [] (shows_nothing v)
      exact ⟨h.shows, h.found, fun _ _ _ ⟨_, ht, _⟩ => nomatch ht⟩
    | some t =>
      have ht := hshows t rfl
      cases t with
      | obj fields => exact hobj fields ht
      | _ =>
        -- what is no object shows the value only by being it
        cases ht
        exact grows_of_whole hu _

def Undotted (record : Json) : Prop := ∀ key v, record.get? key = some v → '.' ∉ key.toList

theorem undotted_of_keys {fields : Fields} (h : ∀ key ∈ fields.keys, '.' ∉ key.toList) :
    (obj fields).Undotted := fun key v hv => h key (Fields.exists_get?_iff_mem_keys.mp ⟨v, hv⟩)

theorem Undotted.atPath?_eq {record : Json} (h : record.Undotted) (path : String) :
    record.atPath? path = record.descend? (pathSegments path) := by
  rw [atPath?]
  cases hget : record.get? path with
  | none => rfl
  | some v =>
    have hsegments := pathSegments_of_no_dot (h path v hget)
    cases record with
    | obj fields =>
      have hfield : Fields.get? fields path = some v := hget
      rw [hsegments, descend?_of_get? hfield]
      rfl
    | _ => cases hget

def selectOne (record : Json) (fields : Fields) (path : String) : Fields :=
  match record.atPath? path with
  | some v => Fields.insertAt v (pathSegments path) fields
  | none => fields

def LeadsFrom (record : Json) (key path : String) : Prop :=
  (∃ v, record.atPath? path = some v) ∧ (pathSegments path).head? = some key

/-- The fields show the record, and have what the record has at the paths that were gone through. -/
structure Selects (record : Json) (paths : List String) (fields : Fields) : Prop where
  shows : record.Shows (.obj fields)
  found : ∀ path ∈ paths, ∀ v, record.atPath? path = some v →
    (Json.obj fields).descend? (pathSegments path) = some v
  keys : ∀ key, (∃ w, Fields.get? fields key = some w) ↔ ∃ path ∈ paths, record.LeadsFrom key path

theorem selects_nothing (record : Json) : record.Selects [] [] := by
  refine ⟨shows_nothing record, fun _ hpath => (List.not_mem_nil hpath).elim, fun key => ?_⟩
  constructor
  · rintro ⟨w, hw⟩
    cases hw
  · rintro ⟨path, hpath, -⟩
    exact (List.not_mem_nil hpath).elim

theorem exists_leadsFrom_concat (record : Json) (key : String) (paths : List String)
    (path : String) : (∃ other ∈ paths ++ [path], record.LeadsFrom key other) ↔
      (∃ other ∈ paths, record.LeadsFrom key other) ∨ record.LeadsFrom key path := by
  simp only [List.mem_append, List.mem_singleton, or_and_right, exists_or, exists_eq_left]

theorem Selects.miss {record : Json} {paths : List String} {fields : Fields} {path : String}
    (h : record.Selects paths fields) (hat : record.atPath? path = none) :
    record.Selects (paths ++ [path]) fields := by
  refine ⟨h.shows, List.forall_mem_append.mpr ⟨h.found, fun other hother v hv => ?_⟩,
    fun key => ?_⟩
  · cases List.mem_singleton.mp hother
    cases hat.symm.trans hv
  · have hnot : ¬record.LeadsFrom key path := by
      rintro ⟨⟨v, hv⟩, -⟩
      cases hat.symm.trans hv
    rw [exists_leadsFrom_concat, or_iff_left hnot]
    exact h.keys key

theorem Selects.hit {record : Json} {paths : List String} {fields : Fields} {path : String}
    (horder : record.Ordered) (hnames : record.Undotted) (h : record.Selects paths fields)
    (hat : record.atPath? path = some u) :
    record.Selects (paths ++ [path]) (Fields.insertAt u (pathSegments path) fields) := by
  obtain ⟨step, rest, hsegments⟩ := List.exists_cons_of_ne_nil (pathSegments_ne_nil path)
  have hu : record.descend? (step :: rest) = some u := by
    rw [← hsegments, ← hnames.atPath?_eq, hat]
  have hshows : ∀ t ∈ some (Json.obj fields), record.Shows t := fun t ht =>
    Option.some.inj ht ▸ h.shows
  have hgrows : record.Grows u (step :: rest) (some (.obj fields))
      (.obj (Fields.insertAt u (step :: rest) fields)) := horder.grows hshows hu
  have hleads : ∀ key, record.LeadsFrom key path ↔ key = step := by
    intro key
    rw [LeadsFrom, hsegments, List.head?_cons]
    exact ⟨fun hleads => (Option.some.inj hleads.2).symm, fun heq => ⟨⟨u, hat⟩, heq ▸ rfl⟩⟩
  rw [hsegments]
  refine ⟨hgrows.shows, List.forall_mem_append.mpr
    ⟨fun other hother v hv => ?_, fun other hother v hv => ?_⟩, fun key => ?_⟩
  · have hbefore := h.found other hother v hv
    rw [hnames.atPath?_eq] at hv
    exact hgrows.kept _ v hv ⟨_, rfl, hbefore⟩
  · cases List.mem_singleton.mp hother
    rw [hsegments]
    exact hat.symm.trans hv ▸ hgrows.found
  · rw [exists_leadsFrom_concat, hleads, ← h.keys key, Fields.get?_insertAt]
    split
    next heq => exact iff_of_true ⟨_, rfl⟩ (.inr heq)
    next hne => exact (or_iff_left hne).symm

theorem Selects.one {record : Json} {paths : List String} {fields : Fields}
    (horder : record.Ordered) (hnames : record.Undotted) (h : record.Selects paths fields)
    (path : String) : record.Selects (paths ++ [path]) (record.selectOne fields path) := by
  unfold selectOne
  cases hat : record.atPath? path with
  | none => exact h.miss hat
  | some u => exact h.hit horder hnames hat

theorem Selects.all {record : Json} {done : List String} {fields : Fields}
    (horder : record.Ordered) (hnames : record.Undotted) (h : record.Selects done fields)
    (paths : List String) : record.Selects (done ++ paths) (paths.foldl record.selectOne fields) := by
  induction paths generalizing done fields with
  | nil => rwa [List.append_nil]
  | cons path rest ih =>
    have hrest := ih (h.one horder hnames path)
    rwa [List.append_assoc, List.singleton_append] at hrest

theorem Selects.undotted {record : Json} {paths : List String} {fields : Fields}
    (h : record.Selects paths fields) : (Json.obj fields).Undotted := by
  intro key v hv
  obtain ⟨path, -, -, hfirst⟩ := (h.keys key).mp ⟨v, hv⟩
  exact dot_not_mem_of_mem_pathSegments (List.mem_of_head? hfirst)

/-- At the selected paths there is what the record has there, and nothing if it has nothing. -/
theorem Selects.atPath?_eq {record : Json} {paths : List String} {fields : Fields}
    (hnames : record.Undotted) (h : record.Selects paths fields) {path : String}
    (hpath : path ∈ paths) : (Json.obj fields).atPath? path = record.atPath? path := by
  rw [h.undotted.atPath?_eq]
  cases hat : record.atPath? path with
  | some v => exact h.found path hpath v hat
  | none =>
    refine Option.eq_none_iff_forall_ne_some.mpr fun w hw => ?_
    obtain ⟨u, hu⟩ := h.shows.descend hw
    rw [hnames.atPath?_eq, hu] at hat
    cases hat

end Json

/-- What is selected from a record has at each of the paths what the record has there, and nothing
where the record has nothing. Its names are the first steps of the paths at which the record has
something, and the same paths select all of it. -/
theorem selection_is_projection {record : Json} (horder : record.Ordered) (hnames : record.Undotted)
    (paths : List String) :
    ∃ fields, selectFields record paths = .obj fields ∧
      (∀ path ∈ paths, (selectFields record paths).atPath? path = record.atPath? path) ∧
      (∀ key, key ∈ Fields.keys fields ↔ ∃ path ∈ paths,
        (∃ v, record.atPath? path = some v) ∧ (pathSegments path).head? = some key) ∧
      selectFields (selectFields record paths) paths = selectFields record paths := by
  have hselects := (Json.selects_nothing record).all horder hnames paths
  rw [List.nil_append] at hselects
  have heq : selectFields record paths = .obj (paths.foldl record.selectOne []) := rfl
  have hat : ∀ path ∈ paths, (selectFields record paths).atPath? path = record.atPath? path :=
    fun path hpath => heq ▸ hselects.atPath?_eq hnames hpath
  refine ⟨_, heq, hat, fun key => ?_, ?_⟩
  · rw [← Fields.exists_get?_iff_mem_keys]
    exact hselects.keys key
  · -- the second time each path leads to what it led to the first time
    refine congrArg Json.obj (List.foldl_ext _ _ _ fun fields path hpath => ?_)
    rw [hat path hpath]

def poolRecord : Json :=
  .obj [("disks", .arr [.obj [("bus", .str "sata"), ("size", .nat 4)], .obj [("bus", .null)]]),
    ("name", .str "tank")]

theorem ordered_poolRecord : poolRecord.Ordered := by
  have hfirst : Json.Ordered (.obj [("bus", .str "sata"), ("size", .nat 4)]) :=
    .obj (by unfold Fields.Ordered; decide) (by
      simp only [List.forall_mem_cons]
      exact ⟨.str _, .num _, by simp⟩)
  have hsecond : Json.Ordered (.obj [("bus", .null)]) :=
    .obj (List.pairwise_singleton ..) fun f hf => List.mem_singleton.mp hf ▸ .null
  refine .obj (by unfold Fields.Ordered; decide) ?_
  simp only [List.forall_mem_cons]
  exact ⟨.arr (List.forall_mem_cons.mpr ⟨hfirst, List.forall_mem_cons.mpr ⟨hsecond, by simp⟩⟩),
    .str _, by simp⟩

def poolPaths : List String := ["disks.0.bus", "disks.1", "disks.0", "name.first", "name"]

/-- Disks are selected one by one and in part, then as a whole: the list becomes an object with
positions for names, and what was there of the first disk is replaced by all of it. -/
theorem selection_of_disks_is_projection :
    poolRecord.Ordered ∧ poolRecord.Undotted ∧
      selectFields poolRecord poolPaths =
        .obj [("disks", .obj [("0", .obj [("bus", .str "sata"), ("size", .nat 4)]),
          ("1", .obj [("bus", .null)])]), ("name", .str "tank")] ∧
      ∃ fields, selectFields poolRecord poolPaths = .obj fields ∧
        (∀ path ∈ poolPaths,
          (selectFields poolRecord poolPaths).atPath? path = poolRecord.atPath? path) ∧
        (∀ key, key ∈ Fields.keys fields ↔ ∃ path ∈ poolPaths,
          (∃ v, poolRecord.atPath? path = some v) ∧ (pathSegments path).head? = some key) ∧
        selectFields (selectFields poolRecord poolPaths) poolPaths =
          selectFields poolRecord poolPaths := by
  have hnames : poolRecord.Undotted := Json.undotted_of_keys (by decide)
  exact ⟨ordered_poolRecord, hnames, rfl, selection_is_projection ordered_poolRecord hnames _⟩

end Switchboard
