import Mathlib.Data.List.Sort
import Switchboard.Query.Run

namespace Switchboard

open Std

section Comparators

variable {α β : Type}

theorem transCmp_on (cmp : β → β → Ordering) [TransCmp cmp] (f : α → β) :
    TransCmp fun a b => cmp (f a) (f b) where
  eq_swap := OrientedCmp.eq_swap
  isLE_trans := TransCmp.isLE_trans

theorem transCmp_eq : TransCmp fun _ _ : α => Ordering.eq where
  eq_swap := rfl
  isLE_trans _ _ := rfl

theorem transCmp_swap (cmp : α → α → Ordering) [TransCmp cmp] :
    TransCmp fun a b => (cmp a b).swap := by
  have hopposite : (fun a b => (cmp a b).swap) = fun a b => cmp b a := by
    funext a b
    exact OrientedCmp.eq_swap.symm
  rw [hopposite]
  exact TransCmp.opposite

/-- A list is known by its order and by what it has of each class of equals. -/
theorem eq_of_pairwise_of_filter {cmp : α → α → Ordering} [TransCmp cmp] {l l' : List α}
    (h : l.Pairwise (cmp · · ≠ .gt)) (h' : l'.Pairwise (cmp · · ≠ .gt)) (hperm : l.Perm l')
    (hclass : ∀ a, l.filter (cmp a · == .eq) = l'.filter (cmp a · == .eq)) : l = l' := by
  induction l generalizing l' with
  | nil => exact (List.nil_perm.mp hperm).symm
  | cons a rest ih =>
    cases l' with
    | nil => exact absurd hperm.length_eq (by simp)
    | cons b rest' =>
      -- the two heads are least, so they are of one class and stand first in it
      have hab : cmp a b = .eq := by
        have hle : cmp a b ≠ .gt := by
          rcases List.mem_cons.mp (hperm.mem_iff.mpr List.mem_cons_self) with rfl | hb
          · simp [ReflCmp.compare_self]
          · exact (List.pairwise_cons.mp h).1 b hb
        have hge : cmp b a ≠ .gt := by
          rcases List.mem_cons.mp (hperm.mem_iff.mp List.mem_cons_self) with rfl | ha
          · simp [ReflCmp.compare_self]
          · exact (List.pairwise_cons.mp h').1 a ha
        exact OrientedCmp.isLE_antisymm (Ordering.isLE_iff_ne_gt.mpr hle)
          (Ordering.isLE_iff_ne_gt.mpr hge)
      obtain rfl : a = b := by
        have hheads := hclass a
        rw [List.filter_cons_of_pos (by simp [ReflCmp.compare_self]),
          List.filter_cons_of_pos (by simp [hab])] at hheads
        exact (List.cons.inj hheads).1
      refine congrArg _ (ih h.of_cons h'.of_cons (hperm.cons_inv) fun c => ?_)
      have hrest := hclass c
      rw [List.filter_cons, List.filter_cons] at hrest
      split at hrest
      next => exact (List.cons.inj hrest).2
      next => exact hrest

theorem eq_filter_append_filter {p : α → Bool} {l : List α}
    (h : l.Pairwise fun a b => p b = true → p a = true) :
    l = l.filter p ++ l.filter fun a => !p a := by
  induction l with
  | nil => rfl
  | cons a rest ih =>
    obtain ⟨hfirst, hrest⟩ := List.pairwise_cons.mp h
    cases ha : p a with
    | true => simpa [ha] using ih hrest
    | false =>
      have hnone : ∀ b ∈ rest, p b = false := fun b hb => by
        cases hpb : p b with
        | false => rfl
        | true => exact absurd (hfirst b hb hpb) (by simp [ha])
      have hempty : rest.filter p = [] :=
        List.filter_eq_nil_iff.mpr fun b hb => by simp [hnone b hb]
      have hall : rest.filter (fun b => !p b) = rest :=
        List.filter_eq_self.mpr fun b hb => by simp [hnone b hb]
      simp [ha, hempty, hall]

end Comparators

namespace Json

def measure : Json → Int
  | num n => n.units
  | bool b => b.toNat
  | _ => 0

def wording : Json → String
  | str s => s
  | _ => ""

theorem order_eq : order =
    compareLex (compareOn fun v : Json => v.type.rank) (compareLex (compareOn measure)
      (compareOn wording)) := by
  funext a b
  by_cases htype : a.type = b.type
  · have hbool : ∀ p q : Bool, compare (p.toNat : Int) q.toNat = compare p q := by decide
    cases a <;> cases b <;> cases htype <;>
      simp [order, compareLex, compareOn, compareSame?, measure, wording, ReflCmp.compare_self,
        hbool]
  · have hrank : compare a.type.rank b.type.rank ≠ .eq := by
      cases ha : a.type <;> cases hb : b.type <;> simp_all [JsonType.rank]
    simp only [order, compareLex, compareOn]
    cases h : compare a.type.rank b.type.rank with
    | eq => exact absurd h hrank
    | lt | gt => rfl

instance : TransCmp order := by
  rw [order_eq]
  infer_instance

end Json

namespace SortKey

variable {key : SortKey} {a b : Json}

/-- Where the key puts nulls, whatever else it says. -/
def placement (key : SortKey) : Json → Json → Ordering :=
  match key.nulls with
  | some .lt => compareOn fun v => !v.isNull
  | some .gt => compareOn Json.isNull
  | _ => fun _ _ => .eq

def directed (key : SortKey) : Json → Json → Ordering :=
  if key.descending then fun a b => (a.order b).swap else Json.order

theorem transCmp_placement (key : SortKey) : TransCmp key.placement := by
  unfold placement
  split
  next => infer_instance
  next => infer_instance
  next => exact transCmp_eq

theorem transCmp_directed (key : SortKey) : TransCmp key.directed := by
  unfold directed
  split
  next => exact transCmp_swap Json.order
  next => infer_instance

theorem compareValues_eq (h : key.nulls ≠ some .eq) :
    key.compareValues = compareLex key.placement key.directed := by
  obtain ⟨path, descending, nulls⟩ := key
  funext a b
  rcases nulls with _ | nulls
  · cases descending <;> rfl
  · cases nulls with
    | eq => exact absurd rfl h
    | lt | gt =>
      cases ha : a.isNull <;> cases hb : b.isNull <;> cases descending <;>
        simp [compareValues, compareLex, placement, directed, compareOn, ha, hb] <;> rfl

theorem nulls_ofText (text : String) : (ofText text).nulls ≠ some .eq := by
  cases hfirst : afterPrefix? "nulls_first:".toList text.toList with
  | some rest =>
    simp only [ofText, hfirst]
    split <;> simp
  | none =>
    cases hlast : afterPrefix? "nulls_last:".toList text.toList <;>
      simp only [ofText, hfirst, hlast] <;> split <;> simp

def pathOf (text : String) : String :=
  match text.toList with
  | '-' :: path => String.ofList path
  | path => String.ofList path

theorem afterPrefix?_append (start cs : List Char) :
    afterPrefix? start (start ++ cs) = some cs := by
  simp [afterPrefix?]

theorem ofText_nullsFirst (text : String) :
    (ofText ("nulls_first:" ++ text)).nulls = some .lt ∧
      (ofText ("nulls_first:" ++ text)).path = pathOf text := by
  unfold ofText pathOf
  simp only [String.toList_append, afterPrefix?_append]
  split <;> simp_all

theorem ofText_nullsLast (text : String) :
    (ofText ("nulls_last:" ++ text)).nulls = some .gt ∧
      (ofText ("nulls_last:" ++ text)).path = pathOf text := by
  have hother :
      afterPrefix? "nulls_first:".toList ("nulls_last:".toList ++ text.toList) = none := by
    simp [afterPrefix?]
  unfold ofText pathOf
  simp only [String.toList_append, hother, afterPrefix?_append]
  split <;> simp_all

def isNullAt (key : SortKey) (record : Json) : Bool := (record.atPath key.path).isNull

theorem compare_of_nulls {place : Ordering} (h : key.nulls = some place)
    (ha : key.isNullAt a = true) (hb : key.isNullAt b = false) : key.compare a b = place := by
  unfold isNullAt at ha hb
  simp only [SortKey.compare, compareValues, h, ha, hb]
  rfl

end SortKey

theorem transCmp_compare (text : String) : TransCmp (SortKey.ofText text).compare := by
  have hvalues : TransCmp (SortKey.ofText text).compareValues := by
    rw [SortKey.compareValues_eq (SortKey.nulls_ofText text)]
    have := (SortKey.ofText text).transCmp_placement
    have := (SortKey.ofText text).transCmp_directed
    infer_instance
  exact transCmp_on _ fun record : Json => record.atPath (SortKey.ofText text).path

def sortKeys (texts : List String) : List SortKey := texts.map SortKey.ofText

theorem compareBy_cons (key : SortKey) (keys : List SortKey) :
    compareBy (key :: keys) = compareLex key.compare (compareBy keys) := rfl

theorem compareBy_append (keys more : List SortKey) :
    compareBy (keys ++ more) = compareLex (compareBy keys) (compareBy more) := by
  induction keys with
  | nil => rfl
  | cons key rest ih =>
    funext a b
    rw [List.cons_append, compareBy_cons, ih, compareBy_cons]
    exact (Ordering.then_assoc _ _ _).symm

instance transCmp_compareBy (texts : List String) : TransCmp (compareBy (sortKeys texts)) := by
  induction texts with
  | nil => exact transCmp_eq
  | cons text rest ih =>
    have := transCmp_compare text
    have hcons : compareBy (sortKeys (text :: rest)) =
      compareLex (SortKey.ofText text).compare (compareBy (sortKeys rest)) := compareBy_cons _ _
    rw [hcons]
    infer_instance

section Sorted

variable (texts : List String) (records : List Json)

def classOf (keys : List SortKey) (record : Json) (records : List Json) : List Json :=
  records.filter fun other => compareBy keys record other == .eq

theorem notAfter_trans (a b c : Json) (hab : (compareBy (sortKeys texts) a b != .gt) = true)
    (hbc : (compareBy (sortKeys texts) b c != .gt) = true) :
    (compareBy (sortKeys texts) a c != .gt) = true := by
  simp only [bne_iff_ne] at *
  exact TransCmp.le_trans hab hbc

theorem notAfter_total (a b : Json) : (compareBy (sortKeys texts) a b != .gt ||
    compareBy (sortKeys texts) b a != .gt) = true := by
  have hswap : compareBy (sortKeys texts) b a = (compareBy (sortKeys texts) a b).swap :=
    OrientedCmp.eq_swap
  rw [hswap]
  cases compareBy (sortKeys texts) a b <;> rfl

theorem pairwise_sortRecords : (sortRecords (sortKeys texts) records).Pairwise
    (compareBy (sortKeys texts) · · ≠ .gt) :=
  (List.pairwise_mergeSort (notAfter_trans texts) (notAfter_total texts) records).imp
    fun h => bne_iff_ne.mp h

theorem perm_sortRecords (keys : List SortKey) : (sortRecords keys records).Perm records :=
  List.mergeSort_perm _ _

theorem classOf_sortRecords (record : Json) :
    classOf (sortKeys texts) record (sortRecords (sortKeys texts) records) =
      classOf (sortKeys texts) record records := by
  let cmp := compareBy (sortKeys texts)
  have hclass : (classOf (sortKeys texts) record records).Pairwise
      fun a b => (cmp a b != .gt) = true := by
    refine List.pairwise_of_forall_mem_list fun a ha b hb => ?_
    have hra : cmp record a = .eq := by simpa using (List.mem_filter.mp ha).2
    have hrb : cmp record b = .eq := by simpa using (List.mem_filter.mp hb).2
    have hab : cmp a b = .eq := (TransCmp.congr_left hra).symm.trans hrb
    simp [hab]
  have hsub : (classOf (sortKeys texts) record records).Sublist
      (sortRecords (sortKeys texts) records) :=
    List.sublist_mergeSort (notAfter_trans texts) (notAfter_total texts) hclass List.filter_sublist
  have hidem : classOf (sortKeys texts) record (classOf (sortKeys texts) record records) =
      classOf (sortKeys texts) record records := by simp [classOf]
  -- the class is a part of that in the sorted list and as long
  have hpart : (classOf (sortKeys texts) record records).Sublist
      (classOf (sortKeys texts) record (sortRecords (sortKeys texts) records)) :=
    hidem ▸ hsub.filter _
  have hperm := (List.mergeSort_perm records fun a b => cmp a b != .gt).filter
    fun other => cmp record other == .eq
  exact (hpart.eq_of_length hperm.length_eq.symm).symm

/-- To sort by some keys and then by others is to sort by the latter first. -/
theorem sortRecords_append (more : List String) :
    sortRecords (sortKeys (texts ++ more)) records =
      sortRecords (sortKeys texts) (sortRecords (sortKeys more) records) := by
  have hkeys : sortKeys (texts ++ more) = sortKeys texts ++ sortKeys more := List.map_append
  have hcompare : compareBy (sortKeys (texts ++ more)) =
      compareLex (compareBy (sortKeys texts)) (compareBy (sortKeys more)) := by
    rw [hkeys, compareBy_append]
  refine eq_of_pairwise_of_filter (pairwise_sortRecords _ records) ?_ ?_ fun a => ?_
  · -- of two records that the first keys find equal, the order by the other keys has stayed
    refine List.pairwise_of_forall_sublist fun {a b} hab => ?_
    have hfirst := List.pairwise_iff_forall_sublist.mp (pairwise_sortRecords texts _) hab
    rw [hcompare, compareLex]
    cases heq : compareBy (sortKeys texts) a b with
    | lt => simp
    | gt => exact absurd heq hfirst
    | eq =>
      have hclass := hab.filter fun other => compareBy (sortKeys texts) a other == .eq
      simp only [List.filter_cons, heq, ReflCmp.compare_self, beq_self_eq_true, if_true,
        List.filter_nil] at hclass
      have hmore := classOf_sortRecords texts (sortRecords (sortKeys more) records) a
      rw [classOf, classOf] at hmore
      rw [hmore] at hclass
      exact List.pairwise_iff_forall_sublist.mp (pairwise_sortRecords more records)
        (hclass.trans List.filter_sublist)
  · exact (perm_sortRecords _ _).trans
      ((perm_sortRecords _ _).trans (perm_sortRecords _ _)).symm
  · -- a class of both is a class of the others within one of the first keys
    have hboth : ∀ l : List Json, classOf (sortKeys (texts ++ more)) a l =
        classOf (sortKeys more) a (classOf (sortKeys texts) a l) := by
      intro l
      rw [classOf, classOf, classOf, List.filter_filter, hcompare]
      refine List.filter_congr fun b _ => ?_
      simp only [compareLex]
      cases compareBy (sortKeys texts) a b <;> cases compareBy (sortKeys more) a b <;> rfl
    have hswap : ∀ l : List Json, classOf (sortKeys more) a (classOf (sortKeys texts) a l) =
        classOf (sortKeys texts) a (classOf (sortKeys more) a l) := fun l =>
      List.filter_comm _ _ l
    calc classOf (sortKeys (texts ++ more)) a (sortRecords (sortKeys (texts ++ more)) records)
        = classOf (sortKeys texts) a (classOf (sortKeys more) a records) := by
          rw [classOf_sortRecords, hboth, hswap]
      _ = classOf (sortKeys (texts ++ more)) a
          (sortRecords (sortKeys texts) (sortRecords (sortKeys more) records)) := by
          rw [hboth, classOf_sortRecords texts, hswap, classOf_sortRecords more]

end Sorted

theorem answer_ordered (texts : List String) (records : List Json) :
    ({ orderBy := texts } : QueryOptions).answer records =
      .ok (.arr (sortRecords (sortKeys texts) records)) := by
  have hsort : ({ orderBy := texts } : QueryOptions).sort records =
      sortRecords (sortKeys texts) records := by
    cases texts with
    | nil => exact (List.mergeSort_of_pairwise (List.pairwise_of_forall fun _ _ => rfl)).symm
    | cons text rest => rfl
  have hproject : ({ orderBy := texts } : QueryOptions).project = id := rfl
  simp only [QueryOptions.answer, QueryOptions.page, hsort, hproject, List.map_id, List.drop_zero,
    Bool.false_eq_true, if_false, if_true]

variable [PatternReader]

/-- What some sort keys make of all records and of what queries list. -/
structure SortsRecords (texts : List String) : Prop where
  reversed : ∀ a b, compareBy (sortKeys texts) b a = (compareBy (sortKeys texts) a b).swap
  transitive : ∀ a b c, compareBy (sortKeys texts) a b ≠ .gt →
    compareBy (sortKeys texts) b c ≠ .gt → compareBy (sortKeys texts) a c ≠ .gt
  /-- Filters that can be read are answered with the matching records, in the order of the keys;
  those that the keys find equal are in the order in which they were. -/
  listed : ∀ filters read, Filter.listOfJson filters = .ok read → ∀ records, ∃ rows,
    queryRecords records filters { orderBy := texts } = .ok (.arr rows) ∧
    rows.Perm (matchingRecords read records) ∧
    rows.Pairwise (compareBy (sortKeys texts) · · ≠ .gt) ∧
    ∀ record, classOf (sortKeys texts) record rows =
      classOf (sortKeys texts) record (matchingRecords read records)
  /-- Further keys decide among equals: they may as well be sorted by before. -/
  refined : ∀ more filters records rows,
    queryRecords records filters { orderBy := more } = .ok (.arr rows) →
    queryRecords records filters { orderBy := texts ++ more } =
      queryRecords rows [] { orderBy := texts }
  nullsFirst : ∀ text rest, texts = ("nulls_first:" ++ text) :: rest → ∀ filters records rows,
    queryRecords records filters { orderBy := texts } = .ok (.arr rows) →
    rows = rows.filter (fun row => (row.atPath (SortKey.pathOf text)).isNull) ++
      rows.filter fun row => !(row.atPath (SortKey.pathOf text)).isNull
  nullsLast : ∀ text rest, texts = ("nulls_last:" ++ text) :: rest → ∀ filters records rows,
    queryRecords records filters { orderBy := texts } = .ok (.arr rows) →
    rows = rows.filter (fun row => !(row.atPath (SortKey.pathOf text)).isNull) ++
      rows.filter fun row => (row.atPath (SortKey.pathOf text)).isNull

theorem queryRecords_ordered {filters : List Json} {read : List Filter}
    (h : Filter.listOfJson filters = .ok read) (texts : List String) (records : List Json) :
    queryRecords records filters { orderBy := texts } =
      .ok (.arr (sortRecords (sortKeys texts) (matchingRecords read records))) := by
  rw [queryRecords, h]
  exact answer_ordered texts _

theorem rows_of_query {filters records rows : List Json} {texts : List String}
    (h : queryRecords records filters { orderBy := texts } = .ok (.arr rows)) :
    ∃ read, Filter.listOfJson filters = .ok read ∧
      rows = sortRecords (sortKeys texts) (matchingRecords read records) := by
  cases hread : Filter.listOfJson filters with
  | error e =>
    rw [queryRecords, hread] at h
    cases h
  | ok read =>
    rw [queryRecords_ordered hread] at h
    cases h
    exact ⟨read, rfl, rfl⟩

/-- Whatever the sort keys are, they order all records, and queries list what matches in that
order. -/
theorem sort_keys_order_all (texts : List String) : SortsRecords texts where
  reversed a b := OrientedCmp.eq_swap
  transitive a b c := TransCmp.le_trans
  listed filters read hread records := by
    refine ⟨_, queryRecords_ordered hread texts records, perm_sortRecords _ _,
      pairwise_sortRecords _ _, classOf_sortRecords _ _⟩
  refined more filters records rows hrows := by
    obtain ⟨read, hread, rfl⟩ := rows_of_query hrows
    have hall : ∀ l : List Json, matchingRecords [] l = l := fun l =>
      List.filter_eq_self.mpr fun _ _ => rfl
    have hnone : Filter.listOfJson [] = .ok [] := rfl
    rw [queryRecords_ordered hread, sortRecords_append, queryRecords_ordered hnone, hall]
  nullsFirst text rest htexts filters records rows hrows := by
    obtain ⟨read, -, rfl⟩ := rows_of_query hrows
    obtain ⟨hnulls, hpath⟩ := SortKey.ofText_nullsFirst text
    refine eq_filter_append_filter ((pairwise_sortRecords _ _).imp fun {a b} hab hb => ?_)
    cases ha : (a.atPath (SortKey.pathOf text)).isNull with
    | true => rfl
    | false =>
      -- a null behind another value would be out of order
      have hba := SortKey.compare_of_nulls (a := b) (b := a) hnulls
        (by rw [SortKey.isNullAt, hpath, hb]) (by rw [SortKey.isNullAt, hpath, ha])
      have hswap : compareBy (sortKeys texts) a b = (compareBy (sortKeys texts) b a).swap :=
        OrientedCmp.eq_swap
      refine absurd ?_ hab
      rw [hswap, htexts, sortKeys, List.map_cons, compareBy_cons, compareLex, hba]
      rfl
  nullsLast text rest htexts filters records rows hrows := by
    obtain ⟨read, -, rfl⟩ := rows_of_query hrows
    obtain ⟨hnulls, hpath⟩ := SortKey.ofText_nullsLast text
    have hsplit := eq_filter_append_filter
      (p := fun row => !(row.atPath (SortKey.pathOf text)).isNull)
      ((pairwise_sortRecords texts (matchingRecords read records)).imp fun {a b} hab hb => ?_)
    · simpa only [Bool.not_not] using hsplit
    · cases ha : (a.atPath (SortKey.pathOf text)).isNull with
      | false => rfl
      | true =>
        have hab' := SortKey.compare_of_nulls (a := a) (b := b) hnulls
          (by rw [SortKey.isNullAt, hpath, ha]) (by simpa [SortKey.isNullAt, hpath] using hb)
        refine absurd ?_ hab
        rw [htexts, sortKeys, List.map_cons, compareBy_cons, compareLex, hab']
        rfl

end Switchboard
