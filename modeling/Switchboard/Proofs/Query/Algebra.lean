import Switchboard.Proofs.Query.Grammar

namespace Switchboard

/-- The operators that have a negation, with its name. -/
def opposites : List (String × String) :=
  [("=", "!="), ("in", "nin"), ("rin", "rnin"), ("^", "!^"), ("$", "!$")]

theorem answer_default (records : List Json) :
    ({} : QueryOptions).answer records = .ok (.arr records) := by
  have hproject : ({} : QueryOptions).project = id := rfl
  have hsort : ({} : QueryOptions).sort records = records := rfl
  have hpage : ({} : QueryOptions).page records = records := rfl
  simp only [QueryOptions.answer, hproject, hsort, List.map_id, hpage, Bool.false_eq_true, if_false]

variable [PatternReader] {records filters rows : List Json}

/-- The filters are answered with these of the records. -/
def Returns (records filters rows : List Json) : Prop :=
  queryRecords records filters {} = .ok (.arr rows)

def Readable (filters : List Json) : Prop := ∃ read, Filter.listOfJson filters = .ok read

theorem readable_iff : Readable filters ↔ ∀ v ∈ filters, IsFilter v :=
  (Filter.reads_list filters).exists_iff

theorem returns_of_read {read : List Filter} (h : Filter.listOfJson filters = .ok read) :
    Returns records filters (matchingRecords read records) := by
  rw [Returns, queryRecords, h]
  exact answer_default _

theorem Returns.unique {rows' : List Json} (h : Returns records filters rows)
    (h' : Returns records filters rows') : rows = rows' := by
  cases h.symm.trans h'
  rfl

theorem exists_returns (h : ∀ v ∈ filters, IsFilter v) : ∃ p : Json → Bool,
    (∀ record, p record = true ↔ ∀ v ∈ filters, Says record v) ∧
      ∀ records, Returns records filters (records.filter p) := by
  obtain ⟨read, hread⟩ := readable_iff.mpr h
  have hreads := Filter.reads_list filters
  rw [hread] at hreads
  exact ⟨fun record => Filter.holdsAll read record, hreads.2, fun _ => returns_of_read hread⟩

theorem ofName_opposite {name other : String} (h : (name, other) ∈ opposites) {value : Json}
    (hlist : name = "in" → ∃ items, value = .arr items) :
    ∃ op op' : Operator, Operator.ofName name value = .ok op ∧
      Operator.ofName other value = .ok op' ∧
      ∀ field, op'.holds field value = !op.holds field value := by
  simp only [opposites, List.mem_cons, Prod.mk.injEq, List.not_mem_nil, or_false] at h
  rcases h with ⟨rfl, rfl⟩ | ⟨rfl, rfl⟩ | ⟨rfl, rfl⟩ | ⟨rfl, rfl⟩ | ⟨rfl, rfl⟩
  · exact ⟨.eq, .ne, rfl, rfl, fun _ => rfl⟩
  · obtain ⟨items, rfl⟩ := hlist rfl
    exact ⟨.inList, .notInList, rfl, rfl, fun _ => rfl⟩
  · exact ⟨.includes, .notIncludes, rfl, rfl, fun _ => rfl⟩
  · exact ⟨.startsWith, .notStartsWith, rfl, rfl, fun _ => rfl⟩
  · exact ⟨.endsWith, .notEndsWith, rfl, rfl, fun _ => rfl⟩

theorem returns_triple {name : String} {value : Json} {op : Operator}
    (h : Operator.ofName name value = .ok op) (path : String) (records : List Json) :
    Returns records [.arr [.str path, .str name, value]]
      (records.filter fun record => op.holds (record.atPath path) value) := by
  have hread : Filter.listOfJson [.arr [.str path, .str name, value]] =
      .ok [.compare path op value] := by
    rw [Filter.listOfJson, Filter.ofJson, h]
    rfl
  have hkept : matchingRecords [.compare path op value] records =
      records.filter fun record => op.holds (record.atPath path) value := by
    simp only [matchingRecords, Filter.holdsAll, Filter.holds, Bool.and_true]
  exact hkept ▸ returns_of_read hread

theorem returns_append {fs gs : List Json} (hfs : Readable fs) (hgs : Readable gs)
    (records : List Json) : ∃ rows rows', Returns records fs rows ∧ Returns rows gs rows' ∧
      Returns records (fs ++ gs) rows' := by
  rw [readable_iff] at hfs hgs
  obtain ⟨p, hp, hreturns⟩ := exists_returns hfs
  obtain ⟨q, hq, hreturns'⟩ := exists_returns hgs
  obtain ⟨both, hboth, hreturnsBoth⟩ := exists_returns (List.forall_mem_append.mpr ⟨hfs, hgs⟩)
  have hand : ∀ record, both record = (q record && p record) := fun record => by
    rw [Bool.eq_iff_iff, Bool.and_eq_true, hboth, hp, hq, List.forall_mem_append, and_comm]
  refine ⟨_, _, hreturns records, hreturns' _, ?_⟩
  rw [List.filter_filter, ← List.filter_congr fun record _ => hand record]
  exact hreturnsBoth records

theorem returns_perm {fs gs : List Json} (h : fs.Perm gs) (hfs : Readable fs)
    (records : List Json) : ∃ rows, Returns records fs rows ∧ Returns records gs rows := by
  rw [readable_iff] at hfs
  obtain ⟨p, hp, hreturns⟩ := exists_returns hfs
  obtain ⟨q, hq, hreturns'⟩ := exists_returns fun v hv => hfs v (h.mem_iff.mpr hv)
  have hsame : ∀ record, q record = p record := fun record => by
    rw [Bool.eq_iff_iff, hp, hq]
    exact forall_congr' fun v => imp_congr h.mem_iff.symm Iff.rfl
  refine ⟨_, hreturns records, ?_⟩
  rw [← List.filter_congr fun record _ => hsame record]
  exact hreturns' records

theorem returns_either {branches : List Json} (h : Readable [.arr [.str "OR", .arr branches]])
    (records : List Json) : ∃ p : Json → Bool,
      Returns records [.arr [.str "OR", .arr branches]] (records.filter p) ∧
      ∀ record ∈ records, p record = true ↔ ∃ branch ∈ branches, ∃ rows,
        Returns records (Filter.ofBranch branch) rows ∧ record ∈ rows := by
  rw [readable_iff] at h
  obtain ⟨p, hp, hreturns⟩ := exists_returns h
  refine ⟨p, hreturns records, fun record hrecord => ?_⟩
  have hbranches := (Filter.isFilter_or_iff.mp (h _ List.mem_cons_self)).2
  rw [hp, List.forall_mem_singleton, Filter.says_or_iff]
  refine exists_congr fun branch => and_congr_right fun hbranch => ?_
  obtain ⟨q, hq, hreturns'⟩ :=
    exists_returns (Filter.branch_isFilter_iff.mp (hbranches branch hbranch))
  rw [Filter.branch_says_iff, ← hq]
  constructor
  · exact fun hholds => ⟨_, hreturns' records, List.mem_filter.mpr ⟨hrecord, hholds⟩⟩
  · rintro ⟨rows, hrows, hmem⟩
    rw [hrows.unique (hreturns' records)] at hmem
    exact (List.mem_filter.mp hmem).2

/-- How filters combine on some records. -/
structure FiltersCombine (records : List Json) : Prop where
  append : ∀ fs gs, Readable fs → Readable gs → ∃ rows rows', Returns records fs rows ∧
    Returns rows gs rows' ∧ Returns records (fs ++ gs) rows'
  perm : ∀ fs gs : List Json, fs.Perm gs → Readable fs →
    ∃ rows, Returns records fs rows ∧ Returns records gs rows
  /-- Of an alternative each record is kept, once and at its place, that a branch keeps. -/
  either : ∀ branches, Readable [.arr [.str "OR", .arr branches]] → ∃ p : Json → Bool,
    Returns records [.arr [.str "OR", .arr branches]] (records.filter p) ∧
    ∀ record ∈ records, p record = true ↔ ∃ branch ∈ branches, ∃ rows,
      Returns records (Filter.ofBranch branch) rows ∧ record ∈ rows
  negated : ∀ name other, (name, other) ∈ opposites → ∀ path value,
    (name = "in" → ∃ items, value = .arr items) → ∃ p : Json → Bool,
      Returns records [.arr [.str path, .str name, value]] (records.filter p) ∧
      Returns records [.arr [.str path, .str other, value]] (records.filter fun record => !p record)

/-- Filters are a Boolean algebra over any records. -/
theorem filters_combine (records : List Json) : FiltersCombine records where
  append _ _ hfs hgs := returns_append hfs hgs records
  perm _ _ hperm hfs := returns_perm hperm hfs records
  either _ hreadable := returns_either hreadable records
  negated name other hmem path value hlist := by
    obtain ⟨op, op', hop, hop', hnot⟩ := ofName_opposite hmem hlist
    refine ⟨_, returns_triple hop path records, ?_⟩
    have hkept := returns_triple hop' path records
    simp only [hnot] at hkept
    exact hkept

end Switchboard
