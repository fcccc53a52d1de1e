import Switchboard.Proofs.Schema.Stability
import Switchboard.Reporting.Realtime

namespace Switchboard.Reporting

def Sampled.succeeded : Sampled → Bool
  | .fields _ => true
  | .failed _ | .overflowed _ => false

structure Sample.Holds (s : Sample) (table : CpuTable) (memory : Fields) : Prop where
  stat : ∃ text, s.stat = .text text ∧ cpuTable text = .ok table
  meminfo : ∃ text, s.meminfo = .text text ∧ memoryFigures text = .ok memory

theorem FileText.read_eq_ok_iff {file : FileText} {path text : String} :
    file.read path = .ok text ↔ file = .text text := by
  cases file <;> simp [read]

def figures (previous : Option CpuTable) (table : CpuTable) (memory : Fields) : Json :=
  .ofFields (("memory", .obj memory) ::
    match previous with
    | some before => [("cpu", cpuUsage before table)]
    | none => [])

theorem get?_cpu_figures (previous : Option CpuTable) (table : CpuTable) (memory : Fields) :
    (figures previous table memory).get? "cpu" = previous.map (cpuUsage · table) := by
  unfold figures Json.ofFields Json.get? Fields.ofList Fields.insertAll
  cases previous with
  | none => rfl
  | some before => simp [Fields.get?_insert]

namespace Realtime

variable {r : Realtime} {s : Sample} {samples : List Sample}

theorem sample_of_holds {table : CpuTable} {memory : Fields} (r : Realtime)
    (h : s.Holds table memory) : r.sample s =
      (.fields (figures r.previous table memory), { r with previous := some table }) := by
  obtain ⟨⟨stat, hstat, htable⟩, meminfo, hmeminfo, hmemory⟩ := h
  simp only [sample, hstat, hmeminfo, FileText.read, htable, hmemory]
  rfl

/-- A sample that fails changes nothing, and one that succeeds only what is remembered. -/
theorem sample_cases (r : Realtime) (s : Sample) :
    (∃ table memory, s.Holds table memory ∧ r.sample s =
      (.fields (figures r.previous table memory), { r with previous := some table })) ∨
    ((∀ table memory, ¬s.Holds table memory) ∧
      ∃ answer, answer.succeeded = false ∧ r.sample s = (answer, r)) := by
  by_cases h : ∃ table memory, s.Holds table memory
  · obtain ⟨table, memory, hholds⟩ := h
    exact .inl ⟨table, memory, hholds, sample_of_holds r hholds⟩
  · refine .inr ⟨fun table memory hholds => h ⟨table, memory, hholds⟩, ?_⟩
    unfold sample
    split
    next => exact ⟨_, rfl, rfl⟩
    next stat hstat =>
      split
      next => exact ⟨_, rfl, rfl⟩
      next meminfo hmeminfo =>
        split
        next => exact ⟨_, rfl, rfl⟩
        next memory hmemory =>
          split
          next => exact ⟨_, rfl, rfl⟩
          next table htable =>
            exact absurd ⟨table, memory, ⟨stat, FileText.read_eq_ok_iff.mp hstat, htable⟩,
              meminfo, FileText.read_eq_ok_iff.mp hmeminfo, hmemory⟩ h

/-- Whether a sample succeeds depends on its texts alone. -/
theorem succeeded_iff : (r.sample s).1.succeeded = true ↔ ∃ table memory, s.Holds table memory := by
  rcases sample_cases r s with ⟨table, memory, hholds, heq⟩ | ⟨hnot, answer, hanswer, heq⟩
  · exact ⟨fun _ => ⟨table, memory, hholds⟩, fun _ => by rw [heq]; rfl⟩
  · refine ⟨fun h => ?_, fun ⟨table, memory, hholds⟩ => absurd hholds (hnot table memory)⟩
    rw [heq, hanswer] at h
    cases h

theorem sample_of_failed (h : (r.sample s).1.succeeded = false) : (r.sample s).2 = r := by
  rcases sample_cases r s with ⟨table, memory, -, heq⟩ | ⟨-, answer, -, heq⟩
  · rw [heq] at h
    cases h
  · rw [heq]

def after (r : Realtime) (samples : List Sample) : Realtime :=
  samples.foldl (fun r s => (r.sample s).2) r

/-- The samples, each with the answer to it. -/
def history (r : Realtime) : List Sample → List (Sample × Sampled)
  | [] => []
  | s :: rest => (s, (r.sample s).1) :: (r.sample s).2.history rest

theorem map_fst_history (r : Realtime) (samples : List Sample) :
    (r.history samples).map Prod.fst = samples := by
  induction samples generalizing r with
  | nil => rfl
  | cons s rest ih => rw [history, List.map_cons, ih]

theorem history_append (r : Realtime) (earlier later : List Sample) :
    r.history (earlier ++ later) = r.history earlier ++ (r.after earlier).history later := by
  induction earlier generalizing r with
  | nil => rfl
  | cons s rest ih => exact congrArg (_ :: ·) (ih (r.sample s).2)

theorem history_parts {earlier later : List (Sample × Sampled)}
    (h : r.history samples = earlier ++ later) :
    r.history (earlier.map Prod.fst) = earlier ∧
      (r.after (earlier.map Prod.fst)).history (later.map Prod.fst) = later := by
  have hsamples : samples = earlier.map Prod.fst ++ later.map Prod.fst := by
    rw [← map_fst_history r samples, h, List.map_append]
  have hlength : (r.history (earlier.map Prod.fst)).length = earlier.length := by
    have := congrArg List.length (map_fst_history r (earlier.map Prod.fst))
    rwa [List.length_map, List.length_map] at this
  rw [hsamples, history_append] at h
  exact List.append_inj h hlength

theorem after_of_failed (h : ∀ p ∈ r.history samples, p.2.succeeded = false) :
    r.after samples = r := by
  induction samples with
  | nil => rfl
  | cons s rest ih =>
    have hs := sample_of_failed (h _ List.mem_cons_self)
    have hrest : (r.sample s).2.after rest = (r.sample s).2 := by
      rw [hs]
      refine ih fun p hp => h p (List.mem_cons_of_mem _ ?_)
      rwa [hs]
    exact hrest.trans hs

theorem isSome_previous_after (r : Realtime) (samples : List Sample) :
    (r.after samples).previous.isSome = true ↔
      r.previous.isSome = true ∨ ∃ p ∈ r.history samples, p.2.succeeded = true := by
  induction samples generalizing r with
  | nil => simp [after, history]
  | cons s rest ih =>
    refine (ih (r.sample s).2).trans ?_
    rw [history]
    rcases sample_cases r s with ⟨table, memory, -, heq⟩ | ⟨-, answer, hanswer, heq⟩
    · simp [heq, Sampled.succeeded]
    · simp [heq, hanswer]

theorem history_of_sublist {kept : List (Sample × Sampled)}
    (hkept : kept.Sublist (r.history samples))
    (hall : kept.filter (·.2.succeeded) = (r.history samples).filter (·.2.succeeded)) :
    r.history (kept.map Prod.fst) = kept := by
  induction samples generalizing r kept with
  | nil =>
    rw [List.sublist_nil.mp hkept]
    rfl
  | cons s rest ih =>
    rw [history] at hkept hall
    cases hkept with
    | cons _ hrest =>
      cases hs : (r.sample s).1.succeeded with
      | true =>
        -- what succeeded has not been left out
        rw [List.filter_cons, if_pos hs] at hall
        have hlength := (hrest.filter (·.2.succeeded)).length_le
        rw [hall, List.length_cons] at hlength
        omega
      | false =>
        rw [List.filter_cons, if_neg (ne_true_of_eq_false hs), sample_of_failed hs] at hall
        rw [sample_of_failed hs] at hrest
        exact ih hrest hall
    | @cons_cons later _ _ hrest =>
      have hlater : later.filter (·.2.succeeded) =
          ((r.sample s).2.history rest).filter (·.2.succeeded) := by
        rw [List.filter_cons, List.filter_cons] at hall
        split at hall
        · exact (List.cons.inj hall).2
        · exact hall
      rw [List.map_cons, history, ih hrest hlater]

theorem fields_of_history {earlier later : List (Sample × Sampled)} {fields : Json}
    (h : r.history samples = earlier ++ (s, .fields fields) :: later) :
    ∃ table memory, s.Holds table memory ∧
      fields = figures (r.after (earlier.map Prod.fst)).previous table memory ∧
      (r.after (earlier.map Prod.fst)).after [s] =
        { r.after (earlier.map Prod.fst) with previous := some table } := by
  have hpart := (history_parts h).2
  rw [List.map_cons, history] at hpart
  have hanswer := congrArg Prod.snd (List.cons.inj hpart).1
  rcases sample_cases (r.after (earlier.map Prod.fst)) s with
    ⟨table, memory, hholds, heq⟩ | ⟨-, answer, hfailed, heq⟩
  · rw [heq] at hanswer
    cases hanswer
    exact ⟨table, memory, hholds, rfl, congrArg Prod.snd heq⟩
  · rw [heq] at hanswer
    cases hanswer
    cases hfailed

theorem isSome_cpu_iff {earlier later : List (Sample × Sampled)} {fields : Json}
    (hnew : r.previous = none) (h : r.history samples = earlier ++ (s, .fields fields) :: later) :
    (fields.get? "cpu").isSome = true ↔ ∃ p ∈ earlier, p.2.succeeded = true := by
  obtain ⟨table, memory, -, rfl, -⟩ := fields_of_history h
  rw [get?_cpu_figures, Option.isSome_map, isSome_previous_after, (history_parts h).1, hnew]
  simp

theorem cpu_of_history {sooner between later : List (Sample × Sampled)} {t : Sample}
    {shown fields : Json} (hbetween : ∀ p ∈ between, p.2.succeeded = false)
    (h : r.history samples =
      sooner ++ (t, .fields shown) :: (between ++ (s, .fields fields) :: later)) :
    ∃ before memory now memory', t.Holds before memory ∧ s.Holds now memory' ∧
      fields.get? "cpu" = some (cpuUsage before now) := by
  obtain ⟨before, memory, hbefore, -, hafter⟩ := fields_of_history h
  have hsplit : r.history samples =
      (sooner ++ [(t, .fields shown)]) ++ (between ++ (s, .fields fields) :: later) := by
    rw [h, List.append_assoc]
    rfl
  have hrest := (history_parts hsplit).2
  have hstate : r.after ((sooner ++ [(t, Sampled.fields shown)]).map Prod.fst) =
      { r.after (sooner.map Prod.fst) with previous := some before } := by
    rw [List.map_append, ← hafter, after, List.foldl_append]
    rfl
  rw [hstate] at hrest
  obtain ⟨now, memory', hnow, rfl, -⟩ := fields_of_history hrest
  have hfailed := fun p hp => hbetween p ((history_parts hrest).1 ▸ hp)
  have hunchanged := after_of_failed hfailed
  refine ⟨before, memory, now, memory', hbefore, hnow, ?_⟩
  rw [get?_cpu_figures, hunchanged]
  rfl

end Realtime

/-- The samples that fail make no difference to what is answered to the others. -/
structure FailuresUnseen (r : Realtime) (samples : List Sample) : Prop where
  fails : ∀ p ∈ r.history samples,
    p.2.succeeded = true ↔ ∃ table memory, p.1.Holds table memory
  /-- Failures can be left out, and everything else is answered as before. -/
  leftOut : ∀ kept, kept.Sublist (r.history samples) →
    kept.filter (·.2.succeeded) = (r.history samples).filter (·.2.succeeded) →
    r.history (kept.map Prod.fst) = kept
  allLeftOut : let successes := (r.history samples).filter (·.2.succeeded)
    r.history (successes.map Prod.fst) = successes
  told : ∀ earlier s fields later, r.history samples = earlier ++ (s, .fields fields) :: later →
    ((fields.get? "cpu").isSome = true ↔ ∃ p ∈ earlier, p.2.succeeded = true)
  since : ∀ sooner t shown between s fields later, (∀ p ∈ between, p.2.succeeded = false) →
    r.history samples =
      sooner ++ (t, .fields shown) :: (between ++ (s, .fields fields) :: later) →
    ∃ before memory now memory', t.Holds before memory ∧ s.Holds now memory' ∧
      fields.get? "cpu" = some (cpuUsage before now)

/-- Of a new source, whatever its arguments and its files. -/
theorem failures_unseen (args : Json) (statPath meminfoPath : String) (samples : List Sample) :
    FailuresUnseen { Realtime.ofArgs args with statPath, meminfoPath } samples where
  fails p hp := by
    obtain ⟨earlier, later, h⟩ := List.append_of_mem hp
    have hpart := (Realtime.history_parts h).2
    rw [List.map_cons, Realtime.history] at hpart
    rw [← (List.cons.inj hpart).1]
    exact Realtime.succeeded_iff
  leftOut _ hkept hall := Realtime.history_of_sublist hkept hall
  allLeftOut := Realtime.history_of_sublist List.filter_sublist (by simp)
  told _ _ _ _ h := Realtime.isSome_cpu_iff rfl h
  since _ _ _ _ _ _ _ hbetween h := Realtime.cpu_of_history hbetween h

end Switchboard.Reporting
