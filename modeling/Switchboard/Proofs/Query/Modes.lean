import Switchboard.Query.Run

namespace Switchboard

namespace QueryOptions

variable {o : QueryOptions} {records : List Json}

def pageLength (o : QueryOptions) (n : Nat) : Nat :=
  if o.limit = 0 then n - o.offset else min o.limit (n - o.offset)

theorem length_sort (o : QueryOptions) (records : List Json) :
    (o.sort records).length = records.length := by
  unfold sort
  split
  · rfl
  · exact List.length_mergeSort records

theorem length_page (o : QueryOptions) (records : List Json) :
    (o.page records).length = o.pageLength records.length := by
  unfold page pageLength
  dsimp only
  split
  · exact List.length_drop
  · rw [List.length_take, List.length_drop]

theorem sort_singleton (o : QueryOptions) (record : Json) : o.sort [record] = [record] := by
  unfold sort
  split
  · rfl
  · exact List.mergeSort_singleton record

end QueryOptions

/-- What the modes have in common, where `answer` answers the query with some options: the number of
the records that match. -/
structure ModesAgree (answer : QueryOptions → Except CallError Json) (n : Nat) : Prop where
  counted : ∀ o : QueryOptions, o.count = true → answer o = .ok (.nat n)
  listed : ∀ o : QueryOptions, o.count = false → o.get = false →
    ∃ rows, answer o = .ok (.arr rows) ∧ rows.length = o.pageLength n
  missing : ∀ o : QueryOptions, o.count = false → o.get = true →
    (answer o = .error .matchNotFound ↔ n = 0)
  several : ∀ o : QueryOptions, o.count = false → o.get = true →
    ∀ m, answer o = .error (.tooManyMatches m) ↔ 1 < n ∧ m = n
  /-- The only record is answered with as it is listed, wherever it stands. -/
  only : n = 1 → ∀ o : QueryOptions, o.count = false → o.get = true →
    ∃ row, answer o = .ok row ∧ ∀ o' : QueryOptions, o'.count = false → o'.get = false →
      o'.select = o.select → o'.offset = 0 → o'.limit = 0 → answer o' = .ok (.arr [row])

theorem modesAgree_answer (records : List Json) :
    ModesAgree (fun o => o.answer records) records.length where
  counted o hcount := by simp only [QueryOptions.answer, hcount, if_true]
  listed o hcount hget := by
    refine ⟨o.page ((o.sort records).map o.project), ?_, ?_⟩
    · simp only [QueryOptions.answer, hcount, hget, Bool.false_eq_true, if_false]
    · rw [QueryOptions.length_page, List.length_map, QueryOptions.length_sort]
  missing o hcount hget := by
    simp only [QueryOptions.answer, hcount, hget, Bool.false_eq_true, if_false, if_true]
    rcases records with _ | ⟨record, _ | ⟨other, rest⟩⟩ <;> simp
  several o hcount hget m := by
    simp only [QueryOptions.answer, hcount, hget, Bool.false_eq_true, if_false, if_true]
    rcases records with _ | ⟨record, _ | ⟨other, rest⟩⟩ <;> simp [eq_comm]
  only hone o hcount hget := by
    obtain ⟨record, rfl⟩ := List.length_eq_one_iff.mp hone
    refine ⟨o.project record, ?_, fun o' hcount' hget' hselect hoffset hlimit => ?_⟩
    · simp only [QueryOptions.answer, hcount, hget, Bool.false_eq_true, if_false, if_true]
    · have hproject : o'.project record = o.project record := by
        simp only [QueryOptions.project, hselect]
      simp only [QueryOptions.answer, hcount', hget', Bool.false_eq_true, if_false,
        QueryOptions.sort_singleton, List.map_cons, List.map_nil, hproject]
      simp only [QueryOptions.page, hoffset, hlimit, List.drop_zero, if_true]

/-- A filter list that cannot be read is refused with one error, whatever the records and the
options are; any other gives a number of matching records about which all modes agree. -/
theorem modes_agree [PatternReader] (filters : List Json) :
    (∃ text, ∀ records o, queryRecords records filters o = .error (.invalidFilter text)) ∨
      ∀ records, ∃ n, ModesAgree (queryRecords records filters) n := by
  cases hread : Filter.listOfJson filters with
  | error e =>
    refine .inl ⟨e.message, fun records o => ?_⟩
    simp only [queryRecords, hread, QueryError.toCallError]
  | ok read =>
    refine .inr fun records => ⟨(matchingRecords read records).length, ?_⟩
    have hquery : queryRecords records filters = fun o => o.answer (matchingRecords read records) := by
      funext o
      rw [queryRecords, hread]
    rw [hquery]
    exact modesAgree_answer _

end Switchboard
