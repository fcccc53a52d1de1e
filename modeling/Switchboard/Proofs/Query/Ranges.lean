import Switchboard.Proofs.Query.Algebra
import Switchboard.Proofs.Query.Pages
import Switchboard.Proofs.Query.Sorting

namespace Switchboard

open Std

def JsonType.Ordered (t : JsonType) : Prop := t = .bool ∨ t = .number ∨ t = .string

namespace Json

variable {a b c : Json}

/-- Two numbers, two texts or two truth values. -/
inductive Alike : Json → Json → Prop where
  | num (m n : Number) : Alike (.num m) (.num n)
  | str (s t : String) : Alike (.str s) (.str t)
  | bool (p q : Bool) : Alike (.bool p) (.bool q)

theorem alike_of_type (h : a.type.Ordered) (htype : b.type = a.type) : b.Alike a := by
  cases a <;> cases b <;> cases htype
  case bool.bool => exact .bool _ _
  case num.num => exact .num _ _
  case str.str => exact .str _ _
  all_goals simp [type, JsonType.Ordered] at h

theorem Alike.compareSame? (h : a.Alike b) : a.compareSame? b = some (a.order b) := by
  cases h <;> rfl

theorem Alike.equals (h : a.Alike b) : a.equals b = (a.order b == .eq) := by
  rw [Bool.eq_iff_iff, beq_iff_eq]
  cases h with
  | num m n => exact beq_iff_eq.trans Int.compare_eq_eq.symm
  | str s t => exact beq_iff_eq.trans LawfulEqOrd.compare_eq_iff_eq.symm
  | bool p q => exact beq_iff_eq.trans LawfulEqOrd.compare_eq_iff_eq.symm

theorem compareSame?_of_type_ne (h : a.type ≠ b.type) : a.compareSame? b = none := by
  cases a <;> cases b <;> first | rfl | exact absurd rfl h

theorem equals_of_type_ne (h : a.type ≠ b.type) : a.equals b = false := by
  cases a <;> cases b <;> first | rfl | exact absurd rfl h

theorem alike_of_compareSame? {o : Ordering} (h : a.compareSame? b = some o) : a.Alike b := by
  cases a <;> cases b
  case bool.bool => exact .bool _ _
  case num.num => exact .num _ _
  case str.str => exact .str _ _
  all_goals cases h

theorem Alike.countP_eq_one (h : a.Alike b) :
    [Operator.lt, .eq, .gt].countP (fun op => op.holds a b) = 1 := by
  simp only [List.countP_cons, List.countP_nil, Operator.holds, h.equals, h.compareSame?]
  cases a.order b <;> rfl

theorem Alike.le_eq (h : a.Alike b) : Operator.le.holds a b = !Operator.gt.holds a b := by
  simp only [Operator.holds, h.compareSame?]
  cases a.order b <;> rfl

theorem Alike.ge_eq (h : a.Alike b) : Operator.ge.holds a b = !Operator.lt.holds a b := by
  simp only [Operator.holds, h.compareSame?]
  cases a.order b <;> rfl

theorem holds_of_type_ne (h : a.type ≠ b.type) :
    ∀ op ∈ [Operator.eq, .lt, .le, .gt, .ge], op.holds a b = false := by
  simp [Operator.holds, equals_of_type_ne h, compareSame?_of_type_ne h]

theorem holds_gt_eq_true (h : Operator.gt.holds a b = true) : a.Alike b ∧ a.order b = .gt := by
  have hcompare := beq_iff_eq.mp h
  have halike := alike_of_compareSame? hcompare
  exact ⟨halike, Option.some.inj (halike.compareSame?.symm.trans hcompare)⟩

theorem holds_lt_of_not_gt (hac : a.Alike c) (hbc : b.Alike c)
    (hab : Operator.gt.holds a b = false) (h : Operator.lt.holds b c = true) :
    Operator.lt.holds a c = true := by
  have halike : a.Alike b := by
    cases hac <;> cases hbc <;> constructor
  rw [Operator.holds, halike.compareSame?] at hab
  rw [Operator.holds, hbc.compareSame?] at h
  rw [Operator.holds, hac.compareSame?]
  have hle : (a.order b).isLE := Ordering.isLE_iff_ne_gt.mpr fun heq => by simp [heq] at hab
  have hlt : b.order c = .lt := Option.some.inj (beq_iff_eq.mp h)
  exact beq_iff_eq.mpr (congrArg some (TransCmp.lt_of_isLE_of_lt hle hlt))

end Json

theorem SortKey.holds_gt_of_ascending {key : SortKey} (hkey : key.descending = false) {a b : Json}
    (h : key.compareValues a b ≠ .gt) : Operator.gt.holds a b = false := by
  by_contra hgt
  obtain ⟨halike, horder⟩ := Json.holds_gt_eq_true (Bool.not_eq_false _ ▸ hgt)
  refine h ?_
  have hnulls : key.compareValues a b = a.order b := by
    rw [compareValues, hkey]
    cases halike <;> cases key.nulls <;> rfl
  exact hnulls.trans horder

/-- The rows are in the order of a field, and a value divides those that have its type there. -/
structure Ascends [PatternReader] (path : String) (rows : List Json) : Prop where
  ordered : rows.Pairwise fun row later =>
    Operator.gt.holds (row.atPath path) (later.atPath path) = false
  divided : ∀ v : Json, v.type.Ordered → ∃ lower upper,
    (rows.filter fun row => (row.atPath path).type == v.type) = lower ++ upper ∧
    Returns (lower ++ upper) [.arr [.str path, .str "<", v]] lower ∧
    Returns (lower ++ upper) [.arr [.str path, .str ">=", v]] upper

theorem ascends_of_pairwise [PatternReader] {path : String} {rows : List Json}
    (h : rows.Pairwise fun row later =>
      Operator.gt.holds (row.atPath path) (later.atPath path) = false) : Ascends path rows where
  ordered := h
  divided v hv := by
    let less : Json → Bool := fun row => Operator.lt.holds (row.atPath path) v
    let typed := rows.filter fun row => (row.atPath path).type == v.type
    have halike : ∀ row ∈ typed, (row.atPath path).Alike v := fun row hrow =>
      Json.alike_of_type hv (beq_iff_eq.mp (List.mem_filter.mp hrow).2)
    have hsplit : typed = typed.filter less ++ typed.filter fun row => !less row := by
      refine eq_filter_append_filter (List.Pairwise.imp_of_mem ?_ (h.filter _))
      exact fun hrow hlater hgt => Json.holds_lt_of_not_gt (halike _ hrow) (halike _ hlater) hgt
    have hlt : Operator.ofName "<" v = .ok .lt := rfl
    have hge : Operator.ofName ">=" v = .ok .ge := rfl
    have hlower := returns_triple hlt path typed
    have hupper := returns_triple hge path typed
    refine ⟨typed.filter less, typed.filter fun row => !less row, hsplit, ?_, ?_⟩
    · rw [← hsplit]
      exact hlower
    · rw [List.filter_congr fun row hrow => (halike row hrow).ge_eq] at hupper
      rw [← hsplit]
      exact hupper

theorem pairwise_sort {o : QueryOptions} {text : String} {rest : List String}
    (horder : o.orderBy = text :: rest) (hkey : (SortKey.ofText text).descending = false)
    (records : List Json) : (o.sort records).Pairwise fun row later =>
      Operator.gt.holds (row.atPath (SortKey.ofText text).path)
        (later.atPath (SortKey.ofText text).path) = false := by
  have hsort : o.sort records = sortRecords (sortKeys (text :: rest)) records := by
    rw [QueryOptions.sort, horder]
    rfl
  rw [hsort]
  refine (pairwise_sortRecords _ _).imp fun {a b} hab => ?_
  refine SortKey.holds_gt_of_ascending hkey fun hgt => hab ?_
  have hfirst : (SortKey.ofText text).compare a b = .gt := hgt
  rw [sortKeys, List.map_cons, compareBy_cons, compareLex, hfirst]
  rfl

theorem shown_of_listed [PatternReader] {o : QueryOptions} (hcount : o.count = false)
    (hget : o.get = false) {records filters : List Json} {answer : Json}
    (h : queryRecords records filters o = .ok answer) : ∃ found,
      answer = .arr ((o.page (o.sort found)).map o.project) ∧
      queryRecords records filters { o with select := [] } =
        .ok (.arr (o.page (o.sort found))) := by
  unfold queryRecords at h ⊢
  cases hread : Filter.listOfJson filters with
  | error e =>
    rw [hread] at h
    cases h
  | ok read =>
    simp only [hread] at h ⊢
    rw [o.answer_listed hcount hget, QueryOptions.page_map] at h
    have hwhole := ({ o with select := [] } : QueryOptions).answer_listed hcount hget
      (matchingRecords read records)
    have hproject : ({ o with select := [] } : QueryOptions).project = id := rfl
    rw [hproject, List.map_id] at hwhole
    cases h
    exact ⟨matchingRecords read records, rfl, hwhole⟩

/-- Comparisons agree with one another and with ascending sort keys. The field of a row is that of
the record that the row shows, of which it may have only some fields. -/
theorem comparisons_cohere [PatternReader] :
    (∀ a b : Json, a.Alike b →
      [Operator.lt, .eq, .gt].countP (fun op => op.holds a b) = 1 ∧
      Operator.le.holds a b = !Operator.gt.holds a b ∧
      Operator.ge.holds a b = !Operator.lt.holds a b) ∧
    (∀ a b : Json, a.type ≠ b.type →
      ∀ op ∈ [Operator.eq, .lt, .le, .gt, .ge], op.holds a b = false) ∧
    ∀ (o : QueryOptions) (text : String) (rest : List String), o.count = false → o.get = false →
      o.orderBy = text :: rest → (SortKey.ofText text).descending = false →
      ∀ records filters answer, queryRecords records filters o = .ok answer →
        ∃ rows, queryRecords records filters { o with select := [] } = .ok (.arr rows) ∧
          answer = .arr (rows.map o.project) ∧ Ascends (SortKey.ofText text).path rows := by
  refine ⟨fun a b h => ⟨h.countP_eq_one, h.le_eq, h.ge_eq⟩, fun a b => Json.holds_of_type_ne, ?_⟩
  intro o text rest hcount hget horder hkey records filters answer hanswer
  obtain ⟨found, hrows, hwhole⟩ := shown_of_listed hcount hget hanswer
  exact ⟨_, hwhole, hrows,
    ascends_of_pairwise ((pairwise_sort horder hkey found).sublist (o.sublist_page _))⟩

/-- Two records, each with a field `a.b` and another value at the path `a.b` through `a`. -/
def doubled : List Json :=
  [.obj [("a", .obj [("b", .nat 5)]), ("a.b", .nat 1)],
    .obj [("a", .obj [("b", .nat 3)]), ("a.b", .nat 2)]]

theorem query_doubled [PatternReader] :
    queryRecords doubled [] { orderBy := ["a.b"], select := ["a"] } =
      .ok (.arr [.obj [("a", .obj [("b", .nat 5)])], .obj [("a", .obj [("b", .nat 3)])]]) := by
  let o : QueryOptions := { orderBy := ["a.b"], select := ["a"] }
  have hsort : o.sort doubled = doubled :=
    List.mergeSort_of_pairwise (List.pairwise_pair.mpr (by decide +kernel))
  have hlisted := o.answer_listed rfl rfl doubled
  rw [hsort] at hlisted
  exact hlisted

-- no filter below has a pattern, and any engine would do
attribute [local instance] PatternReader.plain

/-- A null is less than no null and no less than none, and records that are sorted by a field may
show another value at its path when they are cut down to some fields. -/
theorem null_in_no_range_and_fields_hidden :
    (∃ rows, queryRecords [.obj [("f", .null)]] [] { orderBy := ["f"] } = .ok (.arr rows) ∧
      (rows.filter fun row => (row.atPath "f").type == Json.null.type) = [.obj [("f", .null)]] ∧
      Returns rows [.arr [.str "f", .str "<", .null]] [] ∧
      Returns rows [.arr [.str "f", .str ">=", .null]] []) ∧
    ∃ row later, queryRecords doubled [] { orderBy := ["a.b"], select := ["a"] } =
        .ok (.arr [row, later]) ∧
      Operator.gt.holds (row.atPath "a.b") (later.atPath "a.b") = true := by
  have hsorted : queryRecords [.obj [("f", .null)]] [] { orderBy := ["f"] } =
      .ok (.arr [.obj [("f", .null)]]) := by
    have hsort : sortRecords (sortKeys ["f"]) [.obj [("f", .null)]] = [.obj [("f", .null)]] :=
      List.mergeSort_singleton _
    have hall : matchingRecords [] [.obj [("f", .null)]] = [.obj [("f", .null)]] := rfl
    rw [queryRecords_ordered rfl, hall, hsort]
  exact ⟨⟨_, hsorted, rfl, rfl, rfl⟩, _, _, query_doubled, by decide +kernel⟩

end Switchboard
