import Switchboard.Proofs.Numbers.Quotients
import Switchboard.Proofs.Reporting.Processors
import Switchboard.Proofs.Reporting.Samples

namespace Switchboard.Reporting

/-- The size of the percentage `busy` of `total` as it is rounded: both counts, the hundredfold of
the one, and the quotient. -/
def percentage (busy total : Nat) : Nat :=
  nearest (nearest (100 * nearest (busy * unitsPerOne) 1) 1 * unitsPerOne)
    (nearest (total * unitsPerOne) 1)

section Percentage

variable {busy total : Nat}

theorem le_nearest_whole (hpos : 0 < total) : unitsPerOne ≤ nearest (total * unitsPerOne) 1 := by
  have hone := isSize_whole (n := 1) (by decide)
  rw [Nat.one_mul] at hone
  refine hone.le_nearest Nat.one_pos ?_
  rw [Nat.mul_one]
  exact Nat.le_mul_of_pos_left _ hpos

theorem nearest_hundredfold {busy : Nat} (h : 25 * busy ≤ 2 ^ 53) :
    nearest (100 * nearest (busy * unitsPerOne) 1) 1 = 100 * (busy * unitsPerOne) := by
  have hbits := isSize_of_bits h 2
  have heq : 25 * busy * 2 ^ 2 * unitsPerOne = 100 * (busy * unitsPerOne) := by
    rw [← Nat.mul_assoc]
    congr 1
    omega
  rw [heq] at hbits
  rw [(isSize_whole (n := busy) (by omega)).nearest_eq, hbits.nearest_eq]

theorem nearest_hundredfold_mono {busy busy' : Nat} (h : busy ≤ busy') :
    nearest (100 * nearest (busy * unitsPerOne) 1) 1 ≤
      nearest (100 * nearest (busy' * unitsPerOne) 1) 1 := by
  have hinner : nearest (busy * unitsPerOne) 1 ≤ nearest (busy' * unitsPerOne) 1 :=
    nearest_le_nearest Nat.one_pos Nat.one_pos (Nat.mul_le_mul_right _ (Nat.mul_le_mul_right _ h))
  exact nearest_le_nearest Nat.one_pos Nat.one_pos
    (Nat.mul_le_mul_right _ (Nat.mul_le_mul_left _ hinner))

/-- A part of not too large a whole is no more than a hundred percent. -/
theorem percentage_le_hundred (hle : busy ≤ total) (hpos : 0 < total)
    (hsmall : 25 * total ≤ 2 ^ 53) :
    percentage busy total ≤ 100 * unitsPerOne := by
  have hscaled := nearest_hundredfold_mono hle
  rw [nearest_hundredfold hsmall] at hscaled
  unfold percentage
  rw [(isSize_whole (n := total) (by omega)).nearest_eq]
  refine (isSize_whole (n := 100) (by decide)).nearest_le (Nat.mul_pos hpos unitsPerOne_pos) ?_
  calc _ ≤ 100 * (total * unitsPerOne) * unitsPerOne := Nat.mul_le_mul_right _ hscaled
    _ = 100 * unitsPerOne * (total * unitsPerOne) := by ring

theorem exists_after_hundred :
    ∃ j, unitsPerOne = 2 ^ 46 * 2 ^ j ∧ IsSize ((100 * 2 ^ 46 + 1) * 2 ^ j) := by
  obtain ⟨k, hk⟩ := exists_unitsPerOne
  have hle : 2 ^ 46 ≤ unitsPerOne := by decide +kernel
  rw [hk, Nat.pow_le_pow_iff_right (by decide)] at hle
  refine ⟨k - 46, ?_, exists_unitsOfRank (by decide)⟩
  rw [hk, ← Nat.pow_add, Nat.add_sub_cancel' hle]

/-- A part of any whole is no more than the next double after a hundred. -/
theorem percentage_near_hundred (hle : busy ≤ total) (hpos : 0 < total) :
    2 ^ 46 * percentage busy total ≤ (100 * 2 ^ 46 + 1) * unitsPerOne := by
  obtain ⟨j, hj, hsize⟩ := exists_after_hundred
  have hscaled := nearest_hundredfold_mono hle
  unfold percentage
  have hwhole := unitsPerOne_pos.trans_le (le_nearest_whole hpos)
  generalize nearest (total * unitsPerOne) 1 = whole at *
  generalize nearest (100 * nearest (busy * unitsPerOne) 1) 1 = part at *
  have hnear := nearest_near (100 * whole)
  have hpart : 2 ^ 46 * part ≤ (100 * 2 ^ 46 + 1) * whole := by omega
  have hquotient : nearest (part * unitsPerOne) whole ≤ (100 * 2 ^ 46 + 1) * 2 ^ j := by
    refine hsize.nearest_le hwhole ?_
    calc part * unitsPerOne = 2 ^ 46 * part * 2 ^ j := by rw [hj]; ring
      _ ≤ (100 * 2 ^ 46 + 1) * whole * 2 ^ j := Nat.mul_le_mul_right _ hpart
      _ = _ := by ring
  calc 2 ^ 46 * nearest (part * unitsPerOne) whole ≤ 2 ^ 46 * ((100 * 2 ^ 46 + 1) * 2 ^ j) :=
        Nat.mul_le_mul_left _ hquotient
    _ = _ := by rw [hj]; ring

theorem hundred_lt_percentage (hlt : total < busy) (hpos : 0 < total)
    (hsmall : 25 * (total + 1) ≤ 2 ^ 53) : 100 * unitsPerOne < percentage busy total := by
  obtain ⟨j, hj, hsize⟩ := exists_after_hundred
  have hscaled := nearest_hundredfold_mono (Nat.succ_le_of_lt hlt)
  rw [nearest_hundredfold hsmall] at hscaled
  have hquotient : (100 * 2 ^ 46 + 1) * 2 ^ j ≤ percentage busy total := by
    unfold percentage
    rw [(isSize_whole (n := total) (by omega)).nearest_eq]
    refine hsize.le_nearest (Nat.mul_pos hpos unitsPerOne_pos) ?_
    have hwhole : (100 * 2 ^ 46 + 1) * total ≤ 100 * (total + 1) * 2 ^ 46 := by omega
    calc (100 * 2 ^ 46 + 1) * 2 ^ j * (total * unitsPerOne)
        = (100 * 2 ^ 46 + 1) * total * (2 ^ j * unitsPerOne) := by ring
      _ ≤ 100 * (total + 1) * 2 ^ 46 * (2 ^ j * unitsPerOne) := Nat.mul_le_mul_right _ hwhole
      _ = 100 * ((total + 1) * unitsPerOne) * unitsPerOne := by rw [hj]; ring
      _ ≤ _ := Nat.mul_le_mul_right _ hscaled
  refine lt_of_lt_of_le ?_ hquotient
  have hstep := Nat.two_pow_pos j
  rw [hj]
  omega

end Percentage

theorem nearest_word_le {n : Nat} (h : n ≤ 2 ^ 64) :
    nearest (n * unitsPerOne) 1 ≤ 2 ^ 64 * unitsPerOne := by
  have hword := isSize_of_bits (m := 1) (by decide) 64
  rw [Nat.one_mul] at hword
  exact hword.nearest_one_le (Nat.mul_le_mul_right _ h)

theorem hundredfold_le_ample {n : Nat} (h : n ≤ 2 ^ 64 * unitsPerOne) : 100 * n ≤ ampleSize := by
  unfold ampleSize
  generalize unitsPerOne = one at h
  omega

/-- The arithmetic of doubles gives the percentage of all counts of 64 bits. -/
theorem exists_percentage {busy total : Nat} (hbusy : busy ≤ 2 ^ 64) (htotal : total ≤ 2 ^ 64)
    (hpos : 0 < total) : ∃ part hundred scaled whole d,
      Double.ofInt? busy = some part ∧ Double.ofInt? 100 = some hundred ∧
      part.mul? hundred = some scaled ∧ Double.ofInt? total = some whole ∧
      scaled.div? whole = some d ∧ d.HasSize (percentage busy total) := by
  have hwords : (2 ^ 64 : Nat) ≤ 2 ^ 72 := by decide
  obtain ⟨part, hpart, hspart⟩ := Double.ofInt?_natCast (hbusy.trans hwords)
  obtain ⟨hundred, hhundred, hshundred⟩ := Double.ofInt?_natCast (n := 100) (by decide)
  obtain ⟨whole, hwhole, hswhole⟩ := Double.ofInt?_natCast (htotal.trans hwords)
  rw [(isSize_whole (n := 100) (by decide)).nearest_eq] at hshundred
  have hpositive := le_nearest_whole hpos
  have hproductle := hundredfold_le_ample (nearest_word_le hbusy)
  have hscaledle := isSize_ample.nearest_one_le hproductle
  unfold percentage
  generalize nearest (busy * unitsPerOne) 1 = n at *
  generalize nearest (total * unitsPerOne) 1 = m at *
  have hproduct : n * (100 * unitsPerOne) = 100 * n * unitsPerOne := by ring
  have hproductle' : n * (100 * unitsPerOne) ≤ ampleSize * unitsPerOne := by
    rw [hproduct]
    exact Nat.mul_le_mul_right _ hproductle
  obtain ⟨scaled, hmul, hsscaled⟩ := Double.mul?_eq hspart hshundred hproductle'
  have hexact : nearest (100 * n * unitsPerOne) (1 * unitsPerOne) = nearest (100 * n) 1 :=
    nearest_mul_mul unitsPerOne_pos
  rw [Nat.one_mul] at hexact
  rw [hproduct, hexact] at hsscaled
  obtain ⟨d, hdiv, hsd⟩ := Double.div?_eq hsscaled hswhole (unitsPerOne_pos.trans_le hpositive)
    (Nat.mul_le_mul hscaledle hpositive)
  exact ⟨part, hundred, scaled, whole, d, hpart, hhundred, hmul, hwhole, hdiv, hsd⟩

/-- A product divided, if every step has a result. The operations are arbitrary, since those of
doubles are not to be evaluated. -/
theorem getD_mul_div {α : Type} {f g : α → α → Option α} {x y z : Option α}
    {part hundred scaled whole d zero : α} (hx : x = some part) (hy : y = some hundred)
    (hf : f part hundred = some scaled) (hz : z = some whole) (hg : g scaled whole = some d) :
    Option.getD (do
      let scaled ← f (← x) (← y)
      g scaled (← z)) zero = d := by
  subst hx hy hz
  simp [hf, hg]

section Usage

variable {b t : CpuTimes}

theorem usage_of_standstill (h : t.total ≤ b.total) : usage b t = Double.zero :=
  if_pos (Nat.sub_eq_zero_of_le h)

theorem hasSize_usage (ht : t.Counted) (h : b.total < t.total) :
    (usage b t).HasSize (percentage (t.busy - b.busy) (t.total - b.total)) := by
  have hword : wordLimit = 2 ^ 64 := rfl
  obtain ⟨hbusy, htotal⟩ := ht
  have hpos : 0 < t.total - b.total := Nat.sub_pos_of_lt h
  obtain ⟨part, hundred, scaled, whole, d, hpart, hhundred, hscaled, hwhole, hd, hsize⟩ :=
    exists_percentage (show t.busy - b.busy ≤ 2 ^ 64 by omega) (by omega) hpos
  unfold usage
  rw [if_neg hpos.ne', getD_mul_div hpart hhundred hscaled hwhole hd]
  exact hsize

/-- Idle time was taken back, and busy time has grown. -/
def Reversed (b t : CpuTimes) : Prop := b.busy < t.busy ∧ t.idle < b.idle

/-- More busy time than time at all is counted just when idle time is taken back. -/
theorem busy_exceeds_iff (hb : b.Counted) (ht : t.Counted) :
    t.total - b.total < t.busy - b.busy ↔ Reversed b t := by
  have hb' := hb.1
  have ht' := ht.1
  unfold Reversed CpuTimes.idle
  omega

/-- What is reported of a processor as a percentage. -/
structure Percentage (b t : CpuTimes) : Prop where
  notNegative : 0 ≤ (usage b t).units
  standstill : t.total ≤ b.total → usage b t = Double.zero
  exceeds_iff : t.total - b.total < t.busy - b.busy ↔ Reversed b t
  /-- A share of whatever number of ticks may be rounded to the double after a hundred, but to no
  greater one. -/
  rounded : ¬Reversed b t → 2 ^ 46 * (usage b t).units ≤ (100 * 2 ^ 46 + 1) * unitsPerOne
  within_iff : b.total < t.total → 25 * (t.total - b.total + 1) ≤ 2 ^ 53 →
    ((usage b t).units ≤ 100 * unitsPerOne ↔ ¬Reversed b t)

theorem percentage_of_counted (hb : b.Counted) (ht : t.Counted) : Percentage b t := by
  have hexceeds := busy_exceeds_iff hb ht
  rcases Nat.lt_or_ge b.total t.total with hlt | hge
  · have hpos : 0 < t.total - b.total := Nat.sub_pos_of_lt hlt
    have hunits := (hasSize_usage ht hlt).units
    refine ⟨?_, fun h => absurd h (Nat.not_le.mpr hlt), hexceeds, fun hnot => ?_,
      fun _ hsmall => ?_⟩
    · rw [hunits]
      exact Int.natCast_nonneg _
    · have hle := Nat.le_of_not_lt (mt hexceeds.mp hnot)
      rw [hunits]
      exact_mod_cast percentage_near_hundred hle hpos
    · rw [hunits, ← hexceeds]
      constructor
      · intro hhundred hmore
        have := hundred_lt_percentage hmore hpos hsmall
        exact absurd (by exact_mod_cast hhundred) (Nat.not_le.mpr this)
      · intro hnot
        exact_mod_cast percentage_le_hundred (Nat.le_of_not_lt hnot) hpos (by omega)
  · have hzero := usage_of_standstill hge
    have hunits : Double.zero.units = 0 := by decide
    refine ⟨?_, fun _ => hzero, hexceeds, fun _ => ?_, fun h => absurd hge (Nat.not_le.mpr h)⟩
    · rw [hzero, hunits]
    · rw [hzero, hunits, mul_zero]
      exact Int.mul_nonneg (by decide) (Int.natCast_nonneg _)

end Usage

section Told

variable {before now : CpuTable} {text text' : String}

theorem get?_filterMap (f : String → CpuTimes → Option Json)
    (h : (CpuTable.names now).Ordered) (name : String) :
    Fields.get? (now.filterMap fun e => (f e.1 e.2).map fun v => (e.1, v)) name =
      (now.lookup name).bind (f name) := by
  induction now with
  | nil => rfl
  | cons e rest ih =>
    obtain ⟨key, t⟩ := e
    have hrest := ih (List.pairwise_cons.mp h).2
    have hfirst : rest.lookup key = none := by
      refine List.lookup_eq_none_iff.mpr fun g hg => bne_iff_ne.mpr fun heq => ?_
      have hlt := (List.pairwise_cons.mp h).1 (g.1, .null) (List.mem_map_of_mem hg)
      exact String.lt_irrefl _ (heq ▸ hlt)
    rw [List.lookup_cons]
    by_cases heq : name = key
    · subst heq
      rw [beq_self_eq_true, Option.bind_some, List.filterMap_cons]
      cases hf : f name t with
      | none => rw [Option.map_none, hrest, hfirst]; rfl
      | some v => rw [Option.map_some, Fields.get?_cons, if_pos rfl]
    · rw [beq_false_of_ne heq, List.filterMap_cons]
      cases hf : f key t with
      | none => exact hrest
      | some v => exact (Fields.get?_cons _ _ _).trans ((if_neg heq).trans hrest)

def share (b t : CpuTimes) : Json := .ofFields [("usage", .float (usage b t))]

theorem get?_cpuUsage (h : (CpuTable.names now).Ordered) (name : String) :
    (cpuUsage before now).get? name =
      (now.lookup name).bind fun t => (before.lookup name).map (share · t) := by
  have hfields : cpuUsage before now = .ofFields (now.filterMap fun e =>
      ((before.lookup e.1).map (share · e.2)).map fun v => (e.1, v)) := by
    unfold cpuUsage
    simp only [Option.map_map]
    rfl
  have hordered : Fields.Ordered (now.filterMap fun e =>
      ((before.lookup e.1).map (share · e.2)).map fun v => (e.1, v)) := by
    refine List.pairwise_filterMap.mpr ((List.pairwise_map.mp h).imp fun hlt v hv w hw => ?_)
    obtain ⟨x, -, rfl⟩ := Option.map_eq_some_iff.mp hv
    obtain ⟨y, -, rfl⟩ := Option.map_eq_some_iff.mp hw
    exact hlt
  rw [hfields, Json.ofFields, Json.get?, Fields.ofList, Fields.get?_insertAll hordered,
    get?_filterMap (fun name t => (before.lookup name).map (share · t)) h]
  exact Option.or_none

structure UsageTold (text text' : String) (cpu : Json) : Prop where
  object : cpu.isObject = true
  names : ∀ name, (cpu.get? name).isSome = true ↔ HasLine text name ∧ HasLine text' name
  values : ∀ name told, cpu.get? name = some told → ∃ before now b t,
    cpuTable text = .ok before ∧ cpuTable text' = .ok now ∧ before.lookup name = some b ∧
      now.lookup name = some t ∧ told = share b t ∧ Percentage b t

theorem usageTold (hbefore : cpuTable text = .ok before) (hnow : cpuTable text' = .ok now) :
    UsageTold text text' (cpuUsage before now) where
  object := rfl
  names name := by
    rw [← isSome_lookup_cpuTable_iff hbefore, ← isSome_lookup_cpuTable_iff hnow,
      get?_cpuUsage (ordered_of_cpuTable hnow)]
    cases now.lookup name <;> simp
  values name told htold := by
    rw [get?_cpuUsage (ordered_of_cpuTable hnow)] at htold
    obtain ⟨t, ht, htold⟩ := Option.bind_eq_some_iff.mp htold
    obtain ⟨b, hb, rfl⟩ := Option.map_eq_some_iff.mp htold
    exact ⟨before, now, b, t, hbefore, hnow, hb, ht, rfl,
      percentage_of_counted (counted_of_cpuTable hbefore hb) (counted_of_cpuTable hnow ht)⟩

end Told

/-- From one success to the next, usage is told of the processors that both know. It is a percentage
unless idle time was taken back in between. -/
theorem usage_is_percentage_unless_reversed {r : Realtime} {samples : List Sample}
    {earlier between later : List (Sample × Sampled)} {s s' : Sample} {fields fields' : Json}
    (hbetween : ∀ p ∈ between, p.2.succeeded = false)
    (h : r.history samples =
      earlier ++ (s, .fields fields) :: (between ++ (s', .fields fields') :: later)) :
    ∃ text text' cpu, s.stat = .text text ∧ s'.stat = .text text' ∧
      fields'.get? "cpu" = some cpu ∧ UsageTold text text' cpu := by
  obtain ⟨before, memory, now, memory', hholds, hholds', hcpu⟩ :=
    Realtime.cpu_of_history hbetween h
  obtain ⟨text, htext, hbefore⟩ := hholds.stat
  obtain ⟨text', htext', hnow⟩ := hholds'.stat
  exact ⟨text, text', _, htext, htext', hcpu, usageTold hbefore hnow⟩

def sampleOf (stat : String) : Sample := ⟨.text stat, .text ""⟩

theorem holds_sampleOf {stat : String} {table : CpuTable} (h : cpuTable stat = .ok table) :
    (sampleOf stat).Holds table [] :=
  ⟨⟨stat, rfl, h⟩, "", rfl, rfl⟩

def missing : Sample × Sampled :=
  (⟨.absent, .absent⟩,
    .failed (.failed "Reading /proc/stat: No such file or directory (os error 2)"))

theorem history_of_two {stat stat' : String} {table table' : CpuTable}
    (h : cpuTable stat = .ok table) (h' : cpuTable stat' = .ok table') :
    (Realtime.ofArgs .null).history [sampleOf stat, missing.1, sampleOf stat'] =
      [(sampleOf stat, .fields (figures none table [])), missing,
        (sampleOf stat', .fields (figures (some table) table' []))] := by
  have hfirst := Realtime.sample_of_holds (Realtime.ofArgs .null) (holds_sampleOf h)
  have hlast := Realtime.sample_of_holds { Realtime.ofArgs .null with previous := some table }
    (holds_sampleOf h')
  have hmissing : Realtime.sample { Realtime.ofArgs .null with previous := some table } missing.1 =
      (missing.2, { Realtime.ofArgs .null with previous := some table }) := rfl
  simp only [Realtime.history, hfirst, hmissing, hlast]
  rfl

def statBefore : String := "cpu 100 0 0 1000"

def statAfter : String := "cpu 200 0 0 950"

theorem cpuTable_statBefore : cpuTable statBefore = .ok [("average", ⟨100, 1100⟩)] := rfl

theorem cpuTable_statAfter : cpuTable statAfter = .ok [("average", ⟨200, 1150⟩)] := rfl

def toldAfter : Json := figures (some [("average", ⟨100, 1100⟩)]) [("average", ⟨200, 1150⟩)] []

theorem usage_is_percentage_while_idle_falls :
    (Realtime.ofArgs .null).history [sampleOf statBefore, missing.1, sampleOf statAfter] =
      [] ++ (sampleOf statBefore, .fields (figures none [("average", ⟨100, 1100⟩)] [])) ::
        ([missing] ++ (sampleOf statAfter, .fields toldAfter) :: []) ∧
      (∀ p ∈ [missing], p.2.succeeded = false) ∧
      ∃ cpu, toldAfter.get? "cpu" = some cpu ∧ UsageTold statBefore statAfter cpu := by
  have h := history_of_two cpuTable_statBefore cpuTable_statAfter
  have hbetween : ∀ p ∈ [missing], p.2.succeeded = false := by
    intro p hp
    cases List.mem_singleton.mp hp
    rfl
  obtain ⟨text, text', cpu, htext, htext', hcpu, htold⟩ :=
    usage_is_percentage_unless_reversed hbetween (h.trans (List.nil_append _).symm)
  cases htext
  cases htext'
  exact ⟨h, hbetween, cpu, hcpu, htold⟩

/-- Idle time taken back makes a usage of two hundred percent. A great many ticks without idle time
are rounded to a little more than a hundred. -/
theorem usage_exceeds_hundred :
    (Realtime.ofArgs .null).history [sampleOf statBefore, missing.1, sampleOf statAfter] =
        [(sampleOf statBefore, .fields (figures none [("average", ⟨100, 1100⟩)] [])), missing,
          (sampleOf statAfter, .fields toldAfter)] ∧
      (toldAfter.get? "cpu").bind (·.get? "average") =
        some (share ⟨100, 1100⟩ ⟨200, 1150⟩) ∧
      (usage ⟨100, 1100⟩ ⟨200, 1150⟩).units = 200 * unitsPerOne ∧
      100 * unitsPerOne < (usage ⟨0, 0⟩ ⟨360287970189643, 360287970189643⟩).units := by
  refine ⟨history_of_two cpuTable_statBefore cpuTable_statAfter, ?_, by decide +kernel,
    by decide +kernel⟩
  rw [toldAfter, get?_cpu_figures, Option.map_some, Option.bind_some,
    get?_cpuUsage (ordered_of_cpuTable cpuTable_statAfter)]
  rfl

end Switchboard.Reporting
