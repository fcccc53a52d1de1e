import Mathlib.Data.List.Nodup
import Switchboard.Query.Run

namespace Switchboard

namespace Json

/-- Steps lead from a value to another one: by name into objects, by position into lists. -/
inductive Leads : Json → List String → Json → Prop where
  | here (v : Json) : Leads v [] v
  | field {fields : Fields} {name : String} {next v : Json} {steps : List String}
      (h : fields.get? name = some next) (hrest : Leads next steps v) :
      Leads (.obj fields) (name :: steps) v
  | item {items : List Json} {i : Nat} {text : String} {next v : Json} {steps : List String}
      (hindex : indexOfText? text = some i) (h : items[i]? = some next)
      (hrest : Leads next steps v) : Leads (.arr items) (text :: steps) v

/-- What a record has at a path: the field of that name, else that to which the steps between the
dots lead, and null where there is neither. -/
inductive At (record : Json) (path : String) : Json → Prop where
  | named {v : Json} (h : record.get? path = some v) : At record path v
  | led {v : Json} (hname : record.get? path = none) (h : record.Leads (pathSegments path) v) :
      At record path v
  | nowhere (hname : record.get? path = none) (h : ∀ v, ¬record.Leads (pathSegments path) v) :
      At record path .null

theorem leads_cons_iff {v w : Json} {step : String} {steps : List String} :
    v.Leads (step :: steps) w ↔ ∃ next, v.child? step = some next ∧ next.Leads steps w := by
  constructor
  · intro h
    cases h with
    | field h hrest => exact ⟨_, h, hrest⟩
    | item hindex h hrest =>
      refine ⟨_, ?_, hrest⟩
      rw [child?, hindex]
      exact h
  · rintro ⟨next, hnext, hrest⟩
    cases v with
    | obj fields => exact .field hnext hrest
    | arr items =>
      obtain ⟨i, hindex, h⟩ := Option.bind_eq_some_iff.mp hnext
      exact .item hindex h hrest
    | _ => cases hnext

theorem leads_iff {v w : Json} {steps : List String} :
    v.Leads steps w ↔ v.descend? steps = some w := by
  induction steps generalizing v with
  | nil =>
    rw [descend?, Option.some.injEq]
    constructor
    · rintro ⟨⟩
      rfl
    · rintro rfl
      exact .here v
  | cons step steps ih =>
    rw [leads_cons_iff, descend?, Option.bind_eq_some_iff]
    exact exists_congr fun next => and_congr_right fun _ => ih

theorem at_atPath (record : Json) (path : String) : record.At path (record.atPath path) := by
  unfold atPath atPath?
  cases hname : record.get? path with
  | some v => exact .named hname
  | none =>
    cases hled : record.descend? (pathSegments path) with
    | some v => exact .led hname (leads_iff.mpr hled)
    | none => exact .nowhere hname fun v h => nomatch hled.symm.trans (leads_iff.mp h)

theorem at_iff {record v : Json} {path : String} :
    record.At path v ↔ v = record.atPath path := by
  constructor
  · unfold atPath atPath?
    rintro (hname | ⟨hname, h⟩ | ⟨hname, h⟩) <;> rw [hname]
    · rfl
    · rw [leads_iff.mp h]
      rfl
    · have hnone : record.descend? (pathSegments path) = none :=
        Option.eq_none_iff_forall_ne_some.mpr fun v hv => h v (leads_iff.mpr hv)
      rw [hnone]
      rfl
  · rintro rfl
    exact at_atPath record path

variable {a b : Json}

theorem occursIn_iff {part text : List Char} : occursIn part text = true ↔ part <:+: text := by
  induction text with
  | nil => simp [occursIn]
  | cons c cs ih =>
    rw [occursIn, Bool.or_eq_true, ih, List.isPrefixOf_iff_prefix, List.infix_cons_iff]

/-- A list has its items and their equals, and a text has its parts. -/
inductive Has : Json → Json → Prop where
  | item {items : List Json} {item v : Json} (hmem : item ∈ items) (h : item.equals v = true) :
      Has (.arr items) v
  | part {s t : String} (h : t.toList <:+: s.toList) : Has (.str s) (.str t)

inductive Begins : Json → Json → Prop where
  | mk {s t : String} (h : t.toList <+: s.toList) : Begins (.str s) (.str t)

inductive Ends : Json → Json → Prop where
  | mk {s t : String} (h : t.toList <:+ s.toList) : Ends (.str s) (.str t)

/-- A text meets the condition that is read from a pattern. -/
inductive Matches [PatternReader] : Json → Json → Prop where
  | mk {text source : String} {condition : String → Bool}
      (hread : PatternReader.read source = .ok condition) (h : condition text = true) :
      Matches (.str text) (.str source)

theorem includes_iff : a.includes b = true ↔ a.Has b := by
  constructor
  · intro h
    cases a with
    | arr items =>
      obtain ⟨item, hmem, heq⟩ := List.any_eq_true.mp h
      exact .item hmem heq
    | str s =>
      cases b with
      | str t => exact .part (occursIn_iff.mp h)
      | _ => cases h
    | _ => cases h
  · rintro (⟨hmem, heq⟩ | hpart)
    · exact List.any_eq_true.mpr ⟨_, hmem, heq⟩
    · exact occursIn_iff.mpr hpart

/-- One value is less than another: numbers, texts and truth values are ordered among
themselves. -/
inductive Below : Json → Json → Prop where
  | num {m n : Number} (h : m.units < n.units) : Below (.num m) (.num n)
  | str {s t : String} (h : s < t) : Below (.str s) (.str t)
  | bool : Below (.bool false) (.bool true)

inductive Level : Json → Json → Prop where
  | num {m n : Number} (h : m.units = n.units) : Level (.num m) (.num n)
  | str (s : String) : Level (.str s) (.str s)
  | bool (p : Bool) : Level (.bool p) (.bool p)

theorem compareSame?_eq_lt_iff : a.compareSame? b = some .lt ↔ a.Below b := by
  constructor
  · intro h
    cases a <;> cases b <;> simp only [compareSame?, Option.some.injEq, reduceCtorEq] at h
    case bool p q =>
      cases p <;> cases q
      case false.true => exact .bool
      all_goals cases h
    case num m n => exact .num (Int.compare_eq_lt.mp h)
    case str s t => exact .str (compareOfLessAndEq_eq_lt.mp h)
  · rintro (h | h | _)
    · exact congrArg some (Int.compare_eq_lt.mpr h)
    · exact congrArg some (compareOfLessAndEq_eq_lt.mpr h)
    · rfl

theorem compareSame?_eq_eq_iff : a.compareSame? b = some .eq ↔ a.Level b := by
  constructor
  · intro h
    cases a <;> cases b <;> simp only [compareSame?, Option.some.injEq, reduceCtorEq] at h
    case bool p q =>
      obtain rfl := Std.LawfulEqOrd.eq_of_compare h
      exact .bool p
    case num m n => exact .num (Int.compare_eq_eq.mp h)
    case str s t =>
      obtain rfl := Std.LawfulEqOrd.eq_of_compare h
      exact .str s
  · rintro (h | s | p)
    · exact congrArg some (Int.compare_eq_eq.mpr h)
    · exact congrArg some Std.ReflCmp.compare_self
    · exact congrArg some Std.ReflCmp.compare_self

theorem compareSame?_swap (a b : Json) :
    b.compareSame? a = (a.compareSame? b).map Ordering.swap := by
  cases a <;> cases b <;> first | rfl | exact congrArg some Std.OrientedCmp.eq_swap

theorem compareSame?_eq_gt_iff : a.compareSame? b = some .gt ↔ b.Below a := by
  rw [← compareSame?_eq_lt_iff, compareSame?_swap a b]
  cases a.compareSame? b with
  | none => simp
  | some o => cases o <;> simp

end Json

/-- A reader accepts a value if and only if it is well formed, and reads what it means. -/
def ReadsAs {α : Type} (wellFormed : Prop) (meant : α → Prop) : Except QueryError α → Prop
  | .ok a => wellFormed ∧ meant a
  | .error _ => ¬wellFormed

namespace ReadsAs

variable {α β : Type} {p q p' : Prop} {m : α → Prop} {r : Except QueryError α}

theorem map {m' : β → Prop} {f : α → β} (h : ReadsAs p m r) (hp : p' ↔ p)
    (hm : ∀ a, m a → m' (f a)) : ReadsAs p' m' (r.map f) := by
  cases r with
  | ok a => exact ⟨hp.mpr h.1, hm a h.2⟩
  | error e => exact fun hp' => h (hp.mp hp')

theorem cons {m' n : List α → Prop} {s : Except QueryError (List α)} (h : ReadsAs p m r)
    (hs : ReadsAs q n s) (hp : p' ↔ p ∧ q) (hm : ∀ a as, m a → n as → m' (a :: as)) :
    ReadsAs p' m' (do let a ← r; let as ← s; return a :: as) := by
  cases r with
  | error e => exact fun hp' => h (hp.mp hp').1
  | ok a =>
    cases s with
    | error e => exact fun hp' => hs (hp.mp hp').2
    | ok as => exact ⟨hp.mpr ⟨h.1, hs.1⟩, hm a as h.2 hs.2⟩

theorem exists_iff (h : ReadsAs p m r) : (∃ a, r = .ok a) ↔ p := by
  cases r with
  | ok a => exact ⟨fun _ => h.1, fun _ => ⟨a, rfl⟩⟩
  | error e => exact ⟨nofun, fun hp => absurd hp h⟩

end ReadsAs

/-- A word for a relation between the value at a path of a record and a value that is given. -/
structure Operator.Word where
  name : String
  Takes : Json → Prop
  Relates : Json → Json → Prop

namespace Operator

variable {field value : Json}

def words [PatternReader] : List Word := [
  ⟨"=", fun _ => True, fun field value => field.equals value = true⟩,
  ⟨"!=", fun _ => True, fun field value => ¬field.equals value = true⟩,
  ⟨">", fun _ => True, fun field value => value.Below field⟩,
  ⟨">=", fun _ => True, fun field value => value.Below field ∨ field.Level value⟩,
  ⟨"<", fun _ => True, fun field value => field.Below value⟩,
  ⟨"<=", fun _ => True, fun field value => field.Below value ∨ field.Level value⟩,
  ⟨"~", fun value => ∃ source condition, value = .str source ∧
      PatternReader.read source = .ok condition,
    fun field value => field.Matches value⟩,
  ⟨"in", fun value => ∃ items, value = .arr items, fun field value => value.Has field⟩,
  ⟨"nin", fun value => ∃ items, value = .arr items, fun field value => ¬value.Has field⟩,
  ⟨"rin", fun _ => True, fun field value => field.Has value⟩,
  ⟨"rnin", fun _ => True, fun field value => ¬field.Has value⟩,
  ⟨"^", fun _ => True, fun field value => field.Begins value⟩,
  ⟨"!^", fun _ => True, fun field value => ¬field.Begins value⟩,
  ⟨"$", fun _ => True, fun field value => field.Ends value⟩,
  ⟨"!$", fun _ => True, fun field value => ¬field.Ends value⟩]

theorem isPrefix_iff : isPrefix field value = true ↔ field.Begins value := by
  constructor
  · intro h
    cases field <;> cases value
    case str.str => exact .mk (List.isPrefixOf_iff_prefix.mp h)
    all_goals cases h
  · rintro ⟨h⟩
    exact List.isPrefixOf_iff_prefix.mpr h

theorem isSuffix_iff : isSuffix field value = true ↔ field.Ends value := by
  constructor
  · intro h
    cases field <;> cases value
    case str.str => exact .mk (List.isSuffixOf_iff_suffix.mp h)
    all_goals cases h
  · rintro ⟨h⟩
    exact List.isSuffixOf_iff_suffix.mpr h

theorem holds_matching_iff [PatternReader] {condition : String → Bool} {source : String}
    (h : PatternReader.read source = .ok condition) :
    (matching condition).holds field (.str source) = true ↔ field.Matches (.str source) := by
  constructor
  · intro hholds
    cases field
    case str text => exact .mk h hholds
    all_goals cases hholds
  · rintro ⟨hread, hmeets⟩
    cases h.symm.trans hread
    exact hmeets

/-- No two words have one name. -/
theorem eq_of_name [PatternReader] {word word' : Word} (h : word ∈ words) (h' : word' ∈ words)
    (hname : word.name = word'.name) : word = word' :=
  have hnodup : (words.map Word.name).Nodup :=
    show ["=", "!=", ">", ">=", "<", "<=", "~", "in", "nin", "rin", "rnin", "^", "!^", "$",
      "!$"].Nodup by decide
  List.inj_on_of_nodup_map hnodup h h' hname

abbrev Reads [PatternReader] (name : String) (value : Json) :
    Except QueryError Operator → Prop :=
  ReadsAs (∃ word ∈ words, word.name = name ∧ word.Takes value) fun op =>
    ∀ field, op.holds field value = true ↔
      ∃ word ∈ words, word.name = name ∧ word.Relates field value

section Numbered

variable [PatternReader] {e : QueryError} {op : Operator} {word : Word} (i : Nat)
  (hword : words[i]? = some word)

include hword

theorem reads_word (htakes : word.Takes value)
    (hop : ∀ field, op.holds field value = true ↔ word.Relates field value) :
    Reads word.name value (.ok op) := by
  have hmem := List.mem_of_getElem? hword
  refine ⟨⟨word, hmem, rfl, htakes⟩, fun field => (hop field).trans ?_⟩
  constructor
  · exact fun hrelates => ⟨word, hmem, rfl, hrelates⟩
  · rintro ⟨word', hmem', hname, hrelates⟩
    exact eq_of_name hmem' hmem hname ▸ hrelates

theorem reads_refused (hrefused : ¬word.Takes value) : Reads word.name value (.error e) := by
  rintro ⟨word', hmem', hname, htakes⟩
  exact hrefused (eq_of_name hmem' (List.mem_of_getElem? hword) hname ▸ htakes)

end Numbered

theorem not_iff_of_iff {p : Bool} {q : Prop} (h : p = true ↔ q) : (!p) = true ↔ ¬q := by
  rw [Bool.not_eq_true', ← Bool.not_eq_true, h]

theorem holds_lt_iff : lt.holds field value = true ↔ field.Below value := by
  rw [holds, beq_iff_eq, Json.compareSame?_eq_lt_iff]

theorem holds_gt_iff : gt.holds field value = true ↔ value.Below field := by
  rw [holds, beq_iff_eq, Json.compareSame?_eq_gt_iff]

theorem holds_ge_iff : ge.holds field value = true ↔ value.Below field ∨ field.Level value := by
  rw [holds, Bool.or_eq_true, beq_iff_eq, beq_iff_eq, Json.compareSame?_eq_gt_iff,
    Json.compareSame?_eq_eq_iff]

theorem holds_le_iff : le.holds field value = true ↔ field.Below value ∨ field.Level value := by
  rw [holds, Bool.or_eq_true, beq_iff_eq, beq_iff_eq, Json.compareSame?_eq_lt_iff,
    Json.compareSame?_eq_eq_iff]

/-- An operator is read from a word that takes the value, and from nothing else. -/
theorem reads_ofName [PatternReader] (name : String) (value : Json) :
    Reads name value (ofName name value) := by
  unfold ofName
  -- the words of the table in turn, and any other name
  split
  next => exact reads_word 0 rfl trivial fun _ => Iff.rfl
  next => exact reads_word 1 rfl trivial fun _ => not_iff_of_iff Iff.rfl
  next => exact reads_word 2 rfl trivial fun _ => holds_gt_iff
  next => exact reads_word 3 rfl trivial fun _ => holds_ge_iff
  next => exact reads_word 4 rfl trivial fun _ => holds_lt_iff
  next => exact reads_word 5 rfl trivial fun _ => holds_le_iff
  next =>
    cases value with
    | str source =>
      dsimp only
      split
      next condition hread =>
        exact reads_word 6 rfl ⟨source, condition, rfl, hread⟩ fun _ => holds_matching_iff hread
      next hread =>
        refine reads_refused 6 rfl ?_
        rintro ⟨_, condition, ⟨⟩, h⟩
        cases hread.symm.trans h
    | _ => exact reads_refused 6 rfl nofun
  next =>
    cases value with
    | arr items =>
      exact reads_word 7 rfl ⟨items, rfl⟩ fun _ => Json.includes_iff (a := .arr items)
    | _ => exact reads_refused 7 rfl nofun
  next =>
    cases value with
    | arr items =>
      exact reads_word 8 rfl ⟨items, rfl⟩ fun _ => not_iff_of_iff Json.includes_iff
    | _ => exact reads_refused 8 rfl nofun
  next => exact reads_word 9 rfl trivial fun _ => Json.includes_iff
  next => exact reads_word 10 rfl trivial fun _ => not_iff_of_iff Json.includes_iff
  next => exact reads_word 11 rfl trivial fun _ => isPrefix_iff
  next => exact reads_word 12 rfl trivial fun _ => not_iff_of_iff isPrefix_iff
  next => exact reads_word 13 rfl trivial fun _ => isSuffix_iff
  next => exact reads_word 14 rfl trivial fun _ => not_iff_of_iff isSuffix_iff
  next =>
    rintro ⟨word, hword, rfl, -⟩
    simp only [words, List.mem_cons, List.not_mem_nil, or_false] at hword
    rcases hword with rfl | rfl | rfl | rfl | rfl | rfl | rfl | rfl | rfl | rfl | rfl | rfl | rfl |
      rfl | rfl <;> contradiction

end Operator

/-- A branch of an alternative has one value by itself, or a list of them that starts with a
list. -/
inductive Filter.Branch (P : Json → Prop) : Json → Prop where
  | single {v : Json} (h : P v) : Branch P v
  | group {first rest : List Json} (h : ∀ v ∈ .arr first :: rest, P v) :
      Branch P (.arr (.arr first :: rest))

namespace Filter

variable {branch : Json}

def ofBranch : Json → List Json
  | .arr (.arr first :: rest) => .arr first :: rest
  | v => [v]

theorem ofBranch_single (h : ∀ first rest, branch = .arr (.arr first :: rest) → False) :
    ofBranch branch = [branch] := by
  unfold ofBranch
  split
  next first rest => exact (h first rest rfl).elim
  next => rfl

/-- No value that starts with a list has the property by itself where only filters have it. -/
theorem branch_iff {P : Json → Prop} (hP : ∀ first rest, ¬P (.arr (.arr first :: rest))) :
    Branch P branch ↔ ∀ v ∈ ofBranch branch, P v := by
  constructor
  · rintro (h | h)
    · rw [ofBranch_single fun first rest heq => hP first rest (heq ▸ h)]
      exact List.forall_mem_singleton.mpr h
    · exact h
  · unfold ofBranch
    split
    next => exact .group
    next => exact fun h => .single (List.forall_mem_singleton.mp h)

end Filter

section Reading

variable [PatternReader]

/-- The value is a filter: a word between a path and a value that it takes, or an alternative. -/
inductive IsFilter : Json → Prop where
  | triple {word : Operator.Word} {path : String} {value : Json} (hword : word ∈ Operator.words)
      (h : word.Takes value) : IsFilter (.arr [.str path, .str word.name, value])
  | either {branches : List Json} (h : ∀ branch ∈ branches, Filter.Branch IsFilter branch) :
      IsFilter (.arr [.str "OR", .arr branches])

/-- What a filter says of a record. -/
inductive Says (record : Json) : Json → Prop where
  | triple {word : Operator.Word} {path : String} {field value : Json}
      (hword : word ∈ Operator.words) (hfield : record.At path field)
      (h : word.Relates field value) : Says record (.arr [.str path, .str word.name, value])
  | either {branches : List Json} {branch : Json} (hbranch : branch ∈ branches)
      (h : Filter.Branch (Says record) branch) : Says record (.arr [.str "OR", .arr branches])

namespace Filter

variable {record v branch value : Json} {branches : List Json} {path name word : String}

theorem isFilter_triple_iff : IsFilter (.arr [.str path, .str name, value]) ↔
    ∃ word ∈ Operator.words, word.name = name ∧ word.Takes value := by
  constructor
  · rintro ⟨hword, h⟩
    exact ⟨_, hword, rfl, h⟩
  · rintro ⟨word, hword, rfl, h⟩
    exact .triple hword h

theorem isFilter_or_iff : IsFilter (.arr [.str word, .arr branches]) ↔
    word = "OR" ∧ ∀ branch ∈ branches, Branch IsFilter branch := by
  constructor
  · intro h
    cases h with
    | either h => exact ⟨rfl, h⟩
  · rintro ⟨rfl, h⟩
    exact .either h

theorem says_triple_iff : Says record (.arr [.str path, .str name, value]) ↔
    ∃ word ∈ Operator.words, word.name = name ∧ word.Relates (record.atPath path) value := by
  constructor
  · intro h
    cases h with
    | triple hword hfield h => exact ⟨_, hword, rfl, Json.at_iff.mp hfield ▸ h⟩
  · rintro ⟨word, hword, rfl, h⟩
    exact .triple hword (record.at_atPath path) h

theorem says_or_iff : Says record (.arr [.str "OR", .arr branches]) ↔
    ∃ branch ∈ branches, Branch (Says record) branch := by
  constructor
  · intro h
    cases h with
    | either hbranch h => exact ⟨_, hbranch, h⟩
  · rintro ⟨branch, hbranch, h⟩
    exact .either hbranch h

theorem branch_isFilter_iff :
    Branch IsFilter branch ↔ ∀ v ∈ ofBranch branch, IsFilter v :=
  branch_iff fun _ _ h => nomatch h

theorem branch_says_iff :
    Branch (Says record) branch ↔ ∀ v ∈ ofBranch branch, Says record v :=
  branch_iff fun _ _ h => nomatch h

theorem groupsOfJson_cons (branch : Json) (branches : List Json) :
    groupsOfJson (branch :: branches) = do
      let group ← listOfJson (ofBranch branch)
      let groups ← groupsOfJson branches
      return group :: groups := by
  unfold ofBranch
  split
  next first rest => simp only [groupsOfJson, listOfJson, bind_assoc, pure_bind]
  next hnot =>
    rw [groupsOfJson]
    · cases hv : ofJson branch <;> simp only [listOfJson, hv] <;> rfl
    · exact hnot

abbrev Reads (v : Json) : Except QueryError Filter → Prop :=
  ReadsAs (IsFilter v) fun f => ∀ record, f.holds record = true ↔ Says record v

abbrev ReadsAll (vs : List Json) : Except QueryError (List Filter) → Prop :=
  ReadsAs (∀ v ∈ vs, IsFilter v) fun fs =>
    ∀ record, holdsAll fs record = true ↔ ∀ v ∈ vs, Says record v

abbrev ReadsBranches (branches : List Json) : Except QueryError (List (List Filter)) → Prop :=
  ReadsAs (∀ branch ∈ branches, Branch IsFilter branch) fun groups =>
    ∀ record, holdsSome groups record = true ↔ ∃ branch ∈ branches, Branch (Says record) branch

theorem readsAll_nil : ReadsAll [] (listOfJson []) :=
  ⟨nofun, fun _ => iff_of_true rfl nofun⟩

theorem readsAll_cons {vs : List Json} (h : Reads v (ofJson v)) (hs : ReadsAll vs (listOfJson vs)) :
    ReadsAll (v :: vs) (listOfJson (v :: vs)) := by
  rw [listOfJson]
  refine h.cons hs List.forall_mem_cons fun f fs hf hfs record => ?_
  rw [holdsAll, Bool.and_eq_true, hf, hfs, List.forall_mem_cons]

theorem readsBranches_nil : ReadsBranches [] (groupsOfJson []) :=
  ⟨nofun, fun _ => iff_of_false Bool.false_ne_true nofun⟩

theorem readsBranches_cons (h : ReadsAll (ofBranch branch) (listOfJson (ofBranch branch)))
    (hs : ReadsBranches branches (groupsOfJson branches)) :
    ReadsBranches (branch :: branches) (groupsOfJson (branch :: branches)) := by
  rw [groupsOfJson_cons]
  refine h.cons hs ?_ fun group groups hgroup hgroups record => ?_
  · rw [List.forall_mem_cons, branch_isFilter_iff]
  · simp only [holdsSome, Bool.or_eq_true, hgroup, hgroups, List.mem_cons, exists_eq_or_imp,
      ← branch_says_iff]

theorem reads_all : (∀ v, Reads v (ofJson v)) ∧
    (∀ branches, ReadsBranches branches (groupsOfJson branches)) ∧
    ∀ vs, ReadsAll vs (listOfJson vs) := by
  refine ofJson.mutual_induct_unfolding Reads ReadsBranches ReadsAll ?either ?word ?triple ?other
    readsBranches_nil ?group ?single readsAll_nil fun v vs => readsAll_cons
  case either =>
    intro branches h
    refine h.map (by simp [isFilter_or_iff]) fun groups hgroups record => ?_
    rw [holds, hgroups, says_or_iff]
  case word => exact fun word branches hword h => hword (isFilter_or_iff.mp h).1
  case triple =>
    intro path name value
    refine (Operator.reads_ofName name value).map isFilter_triple_iff fun op hop record => ?_
    rw [holds, hop, says_triple_iff]
  case other =>
    intro v hor htriple h
    cases h with
    | triple => exact htriple _ _ _ rfl
    | either => exact hor _ _ rfl
  case group =>
    intro first rest branches hfirst hrest
    have hgroup : ReadsAll (ofBranch (.arr (.arr first :: rest))) _ := readsAll_cons hfirst hrest
    exact readsBranches_cons hgroup
  case single =>
    intro v branches hnot hv
    refine readsBranches_cons ?_
    rw [ofBranch_single hnot]
    exact readsAll_cons hv readsAll_nil

theorem reads_list (vs : List Json) : ReadsAll vs (listOfJson vs) := reads_all.2.2 vs

end Filter

/-- Exactly the values of the grammar are read as filters, and what is read holds of exactly those
records of which the value says what it says. -/
theorem filters_are_read_as_written (v : Json) :
    ((∃ f, Filter.ofJson v = .ok f) ↔ IsFilter v) ∧
      ∀ f, Filter.ofJson v = .ok f → ∀ record, f.holds record = true ↔ Says record v := by
  have h := Filter.reads_all.1 v
  refine ⟨h.exists_iff, fun f hf => ?_⟩
  rw [hf] at h
  exact h.2

end Reading

end Switchboard
