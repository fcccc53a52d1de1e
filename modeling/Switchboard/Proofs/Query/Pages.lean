import Switchboard.Proofs.Query.Grammar

namespace Switchboard

namespace QueryOptions

variable {o : QueryOptions} {records : List Json}

theorem page_map (o : QueryOptions) (f : Json → Json) (rows : List Json) :
    o.page (rows.map f) = (o.page rows).map f := by
  unfold page
  dsimp only
  split
  · exact List.map_drop.symm
  · rw [List.map_take, List.map_drop]

theorem sublist_page (o : QueryOptions) (rows : List Json) : (o.page rows).Sublist rows := by
  unfold page
  dsimp only
  split
  · exact List.drop_sublist _ _
  · exact (List.take_sublist _ _).trans (List.drop_sublist _ _)

theorem getElem?_page (o : QueryOptions) (rows : List Json) (i : Nat) :
    (o.page rows)[i]? = if o.limit = 0 ∨ i < o.limit then rows[o.offset + i]? else none := by
  unfold page
  dsimp only
  split
  next hnone => rw [if_pos (.inl hnone), List.getElem?_drop]
  next hlimit => simp only [List.getElem?_take, List.getElem?_drop, hlimit, false_or]

/-- What is listed is a page of the records in their order, each cut down to the fields that are
asked for. -/
theorem answer_listed (o : QueryOptions) (hcount : o.count = false) (hget : o.get = false)
    (records : List Json) :
    o.answer records = .ok (.arr (o.page ((o.sort records).map o.project))) := by
  simp only [answer, hcount, hget, Bool.false_eq_true, if_false]

end QueryOptions

/-- What a reader has collected who goes on from an offset, page after page, to an empty one. -/
inductive ReadOut (ask : Nat → Except CallError Json) (size : Nat) : Nat → List Json → Prop where
  | stop {offset : Nat} (h : ask offset = .ok (.arr [])) : ReadOut ask size offset []
  | more {offset : Nat} {page rest : List Json} (h : ask offset = .ok (.arr page))
      (hpage : page ≠ []) (hrest : ReadOut ask size (offset + size) rest) :
      ReadOut ask size offset (page ++ rest)

section ReadOut

variable {ask : Nat → Except CallError Json} {size : Nat} {rows : List Json}

theorem readOut_drop (hsize : 0 < size)
    (hask : ∀ offset, ask offset = .ok (.arr ((rows.drop offset).take size))) (offset : Nat) :
    ReadOut ask size offset (rows.drop offset) := by
  -- on how many rows are left
  induction hleft : rows.length - offset using Nat.strongRecOn generalizing offset with
  | ind left ih =>
    by_cases hend : rows.length ≤ offset
    · have hnil : rows.drop offset = [] := List.drop_eq_nil_of_le hend
      have hlast := hask offset
      rw [hnil, List.take_nil] at hlast
      rw [hnil]
      exact .stop hlast
    · have hpage : (rows.drop offset).take size ≠ [] := by
        rw [← List.length_pos_iff, List.length_take, List.length_drop]
        omega
      have hrest := ih (rows.length - (offset + size)) (by omega) (offset + size) rfl
      have hwhole := ReadOut.more (hask offset) hpage hrest
      rwa [← List.drop_drop, List.take_append_drop] at hwhole

theorem ReadOut.eq_drop {offset : Nat} {read : List Json} (h : ReadOut ask size offset read)
    (hsize : 0 < size) (hask : ∀ offset, ask offset = .ok (.arr ((rows.drop offset).take size))) :
    read = rows.drop offset := by
  induction h with
  | @stop offset hlast =>
    cases hempty : rows.drop offset with
    | nil => rfl
    | cons row rest =>
      have hpage := hask offset
      rw [hlast, hempty] at hpage
      cases size with
      | zero => exact absurd hsize (Nat.lt_irrefl 0)
      | succ n => cases hpage
  | @more offset page rest h hpage hrest ih =>
    cases h.symm.trans (hask offset)
    rw [ih, ← List.drop_drop, List.take_append_drop]

end ReadOut

/-- The pages of some rows, where `ask` answers for an offset and a limit. -/
structure PagesTile (ask : Nat → Nat → Except CallError Json) (rows : List Json) : Prop where
  whole : ask 0 0 = .ok (.arr rows)
  segment : ∀ offset limit, ∃ page, ask offset limit = .ok (.arr page) ∧
    ∀ i : Nat, page[i]? = if limit = 0 ∨ i < limit then rows[offset + i]? else none
  readOut : ∀ size, 0 < size → ∀ read : List Json,
    ReadOut (fun offset => ask offset size) size 0 read ↔ read = rows

theorem pagesTile_of_page {ask : Nat → Nat → Except CallError Json} {rows : List Json}
    (h : ∀ offset limit, ask offset limit =
      .ok (.arr (({ offset, limit } : QueryOptions).page rows))) : PagesTile ask rows where
  whole := h 0 0
  segment offset limit := ⟨_, h offset limit, QueryOptions.getElem?_page _ rows⟩
  readOut size hsize read := by
    have hask : ∀ offset, ask offset size = .ok (.arr ((rows.drop offset).take size)) := by
      intro offset
      rw [h, QueryOptions.page]
      simp only [Nat.ne_of_gt hsize, if_false]
    constructor
    · exact fun hread => hread.eq_drop hsize hask
    · rintro rfl
      exact readOut_drop hsize hask 0

/-- Filters find records in some order, and whatever fields are asked for, pages list these records.
What is no list of filters is refused with one error, whatever page is asked for. -/
theorem pages_tile [PatternReader] (filters : List Json) (orderBy : List String) :
    ((∀ v ∈ filters, IsFilter v) → ∀ records, ∃ found : List Json, ∀ select,
      PagesTile (fun offset limit =>
          queryRecords records filters { orderBy, select, offset, limit })
        (found.map fun record => if select = [] then record else selectFields record select)) ∧
    ((¬∀ v ∈ filters, IsFilter v) → ∃ text, ∀ records select offset limit,
      queryRecords records filters { orderBy, select, offset, limit } =
        .error (.invalidFilter text)) := by
  have hreads := Filter.reads_list filters
  cases hread : Filter.listOfJson filters with
  | error e =>
    rw [hread] at hreads
    refine ⟨fun hfilters => absurd hfilters hreads, fun _ => ⟨e.message, ?_⟩⟩
    intro records select offset limit
    simp only [queryRecords, hread, QueryError.toCallError]
  | ok read =>
    rw [hread] at hreads
    refine ⟨fun _ records => ?_, fun hfilters => absurd hreads.1 hfilters⟩
    refine ⟨({ orderBy } : QueryOptions).sort (matchingRecords read records), fun select => ?_⟩
    refine pagesTile_of_page fun offset limit => ?_
    have hproject : ({ orderBy, select, offset, limit } : QueryOptions).project =
        fun record => if select = [] then record else selectFields record select := by
      funext record
      simp only [QueryOptions.project, List.isEmpty_iff]
    have hlisted := ({ orderBy, select, offset, limit } : QueryOptions).answer_listed rfl rfl
      (matchingRecords read records)
    rw [hproject] at hlisted
    simp only [queryRecords, hread]
    exact hlisted

end Switchboard
