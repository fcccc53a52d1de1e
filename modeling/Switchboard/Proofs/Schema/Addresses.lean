import Mathlib.Algebra.Group.Nat.Defs
import Mathlib.Data.List.Basic
import Mathlib.Data.List.TakeWhile
import Switchboard.Address

namespace Switchboard

namespace Address

theorem digit?_digitChar {radix d : Nat} (hradix : radix ≤ 16) (hd : d < radix) :
    digit? radix d.digitChar = some d := by
  have hall : ∀ radix ≤ 16, ∀ d < radix, digit? radix (Nat.digitChar d) = some d := by decide
  exact hall radix hradix d hd

theorem mem_toDigits {radix n : Nat} {c : Char} (hradix : 1 < radix)
    (hc : c ∈ Nat.toDigits radix n) : ∃ d < radix, c = d.digitChar := by
  induction n using Nat.strongRecOn with
  | ind n ih =>
    rw [Nat.toDigits_eq_if hradix] at hc
    split at hc
    next hlt => exact ⟨n, hlt, List.mem_singleton.mp hc⟩
    next hle =>
      rcases List.mem_append.mp hc with hc | hc
      · exact ih (n / radix) (Nat.div_lt_self (by omega) hradix) hc
      · exact ⟨n % radix, Nat.mod_lt _ (by omega), List.mem_singleton.mp hc⟩

def valueOf (radix : Nat) (ds : List Char) : Nat :=
  ds.foldl (fun n c => n * radix + (digit? radix c).getD 0) 0

theorem valueOf_toDigits {radix : Nat} (hradix : 1 < radix) (hmost : radix ≤ 16) (n : Nat) :
    valueOf radix (Nat.toDigits radix n) = n := by
  induction n using Nat.strongRecOn with
  | ind n ih =>
    rw [Nat.toDigits_eq_if hradix]
    split
    next hlt => simp [valueOf, digit?_digitChar hmost hlt]
    next hle =>
      have hlast := digit?_digitChar hmost (Nat.mod_lt n (by omega : radix > 0))
      have hrest := ih (n / radix) (Nat.div_lt_self (by omega) hradix)
      rw [valueOf] at hrest
      rw [valueOf, List.foldl_append, hrest, List.foldl_cons, List.foldl_nil, hlast,
        Option.getD_some]
      exact Nat.div_add_mod' n radix

theorem toDigits_zeroFirst {radix n : Nat} (hradix : 1 < radix)
    (h : (Nat.toDigits radix n).head? = some '0') : n = 0 := by
  induction n using Nat.strongRecOn with
  | ind n ih =>
    rw [Nat.toDigits_eq_if hradix] at h
    split at h
    next => exact Nat.digitChar_eq_zero.mp (Option.some.inj h)
    next hle =>
      rw [List.head?_append_of_ne_nil _ Nat.toDigits_ne_nil] at h
      have hzero := ih (n / radix) (Nat.div_lt_self (by omega) hradix) h
      have hlt := Nat.lt_of_div_eq_zero (by omega) hzero
      omega

def Ends (radix : Nat) (cs : List Char) : Prop := ∀ c ∈ cs.head?, digit? radix c = none

theorem ends_nil (radix : Nat) : Ends radix [] := fun c hc => by cases hc

theorem number_of_ends {radix limit : Nat} {width : Option Nat} {zeroFirst : Bool}
    {rest : List Char} (h : Ends radix rest) : number radix limit width zeroFirst rest = none := by
  have hnone : rest.takeWhile (fun c => (digit? radix c).isSome) = [] := by
    cases rest with
    | nil => rfl
    | cons c rest => simp [h c rfl]
  simp [number, hnone]

theorem number_toDigits {radix limit n : Nat} {width : Option Nat} {zeroFirst : Bool}
    {rest : List Char} (hradix : 1 < radix) (hmost : radix ≤ 16) (hn : n < limit)
    (hwidth : ∀ w ∈ width, 0 < w ∧ n < radix ^ w) (hrest : Ends radix rest) :
    number radix limit width zeroFirst (Nat.toDigits radix n ++ rest) = some (n, rest) := by
  have hdigits : ∀ c ∈ Nat.toDigits radix n, (digit? radix c).isSome = true := by
    intro c hc
    obtain ⟨d, hd, rfl⟩ := mem_toDigits hradix hc
    rw [digit?_digitChar hmost hd]
    rfl
  have hnone : rest.takeWhile (fun c => (digit? radix c).isSome) = [] := by
    cases rest with
    | nil => rfl
    | cons c rest => simp [hrest c rfl]
  have htake : (Nat.toDigits radix n ++ rest).takeWhile (fun c => (digit? radix c).isSome) =
      Nat.toDigits radix n := by
    rw [List.takeWhile_append_of_pos hdigits, hnone, List.append_nil]
  have hvalue : (Nat.toDigits radix n).foldl
      (fun n c => n * radix + (digit? radix c).getD 0) 0 = n := valueOf_toDigits hradix hmost n
  have hfits : ∀ w ∈ width, (Nat.toDigits radix n).length ≤ w := by
    intro w hw
    obtain ⟨hpos, hpow⟩ := hwidth w hw
    exact (Nat.length_toDigits_le_iff hradix hpos).mpr hpow
  have hfirst : ¬ ((Nat.toDigits radix n).head? = some '0' ∧
      1 < (Nat.toDigits radix n).length) := by
    rintro ⟨hzero, hlength⟩
    rw [toDigits_zeroFirst hradix hzero, Nat.toDigits_zero] at hlength
    simp at hlength
  have hlimit : ¬ limit ≤ n := by omega
  simp only [number, htake, hvalue, List.drop_left]
  rw [if_neg]
  rintro (hempty | hwide | hle | ⟨-, hzero⟩)
  · exact Nat.toDigits_ne_nil (List.isEmpty_iff.mp hempty)
  · cases width with
    | none => cases hwide
    | some w => exact Nat.not_lt.mpr (hfits w rfl) (of_decide_eq_true hwide)
  · exact hlimit hle
  · exact hfirst hzero

theorem fourBytes_of_ends {cs : List Char} (h : Ends 10 cs) : fourBytes cs = none := by
  simp [fourBytes, byte, number_of_ends h]

theorem fourBytes_of_no_dot {cs : List Char} (h : '.' ∉ cs) : fourBytes cs = none := by
  cases hbyte : byte cs with
  | none => simp [fourBytes, hbyte]
  | some p =>
    obtain ⟨n, rest⟩ := p
    have hrest : ∃ k, rest = cs.drop k := by
      simp only [byte, number] at hbyte
      split at hbyte
      next => cases hbyte
      next =>
        cases hbyte
        exact ⟨_, rfl⟩
    obtain ⟨k, rfl⟩ := hrest
    have hdot : char '.' (cs.drop k) = none := by
      cases hdrop : cs.drop k with
      | nil => rfl
      | cons c more =>
        have hmem : c ∈ cs := List.mem_of_mem_drop (hdrop ▸ List.mem_cons_self)
        have hne : '.' ≠ c := fun heq => h (heq ▸ hmem)
        simp [char, hne]
    simp [fourBytes, hbyte, hdot]

theorem byte_digitsOf {n : Nat} {rest : List Char} (hn : n < 256) (hrest : Ends 10 rest) :
    byte (digitsOf n ++ rest) = some (n, rest) :=
  number_toDigits (by decide) (by decide) hn (fun w hw => by cases hw; omega) hrest

theorem fourBytes_joinBytes {a b c d : Nat} {rest : List Char} (ha : a < 256) (hb : b < 256)
    (hc : c < 256) (hd : d < 256) (hrest : Ends 10 rest) :
    fourBytes (joinBytes [a, b, c, d] ++ rest) = some ([a, b, c, d], rest) := by
  have hdot : ∀ cs, Ends 10 ('.' :: cs) := fun cs c hc => by
    cases Option.some.inj hc
    decide
  have hjoin : joinBytes [a, b, c, d] ++ rest = digitsOf a ++ '.' :: (digitsOf b ++ '.' ::
      (digitsOf c ++ '.' :: (digitsOf d ++ rest))) := by
    simp [joinBytes, List.intercalate]
  simp [hjoin, fourBytes, byte_digitsOf, char, hdot, hrest, ha, hb, hc, hd]

def Stops (cs : List Char) : Prop := cs = [] ∨ ∃ more, cs = ':' :: ':' :: more

theorem ends_colon {radix : Nat} (hmost : radix ≤ 16) (cs : List Char) : Ends radix (':' :: cs) := by
  intro c hc
  cases Option.some.inj hc
  have hall : ∀ radix ≤ 16, digit? radix ':' = none := by decide
  exact hall radix hmost

theorem Stops.ends {cs : List Char} (h : Stops cs) {radix : Nat} (hmost : radix ≤ 16) :
    Ends radix cs := by
  rcases h with rfl | ⟨more, rfl⟩
  · exact ends_nil radix
  · exact ends_colon hmost _

theorem groups_of_stops {cs : List Char} (h : Stops cs) (limit : Nat) (first : Bool) :
    groups limit first cs = ([], false, cs) := by
  have hstart : ∀ start, (if first then some cs else char ':' cs) = some start →
      ∀ radix ≤ 16, Ends radix start := by
    intro start heq radix hmost
    cases first with
    | true =>
      cases Option.some.inj heq
      exact h.ends hmost
    | false =>
      rcases h with rfl | ⟨more, rfl⟩
      · cases heq
      · cases Option.some.inj heq
        exact ends_colon hmost _
  cases limit with
  | zero => rfl
  | succ limit =>
    cases hs : (if first then some cs else char ':' cs) with
    | none => simp [groups, hs]
    | some start =>
      have hbytes := fourBytes_of_ends (hstart start hs 10 (by decide))
      have hnumber : number 16 65536 (some 4) true start = none :=
        number_of_ends (hstart start hs 16 (by decide))
      simp [groups, hs, hbytes, hnumber]

def colonHex (gs : List Nat) : List Char := gs.flatMap fun g => ':' :: Nat.toDigits 16 g

theorem joinHex_cons (g : Nat) (gs : List Nat) :
    joinHex (g :: gs) = Nat.toDigits 16 g ++ colonHex gs := by
  induction gs generalizing g with
  | nil => simp [joinHex, colonHex, List.intercalate]
  | cons g' gs ih =>
    have hstep : joinHex (g :: g' :: gs) = Nat.toDigits 16 g ++ ':' :: joinHex (g' :: gs) := by
      simp [joinHex, List.intercalate]
    rw [hstep, ih]
    simp [colonHex]

theorem dot_not_mem_hex (n : Nat) : '.' ∉ Nat.toDigits 16 n := by
  intro hdot
  obtain ⟨d, -, hd⟩ := mem_toDigits (by decide) hdot
  exact Nat.digitChar_ne '.' (by decide) hd.symm

theorem dot_not_mem_colonHex (gs : List Nat) : '.' ∉ colonHex gs := by
  intro hdot
  obtain ⟨g, -, hg⟩ := List.mem_flatMap.mp hdot
  rcases List.mem_cons.mp hg with heq | hg
  · cases heq
  · exact dot_not_mem_hex g hg

theorem dot_not_mem_joinHex (gs : List Nat) : '.' ∉ joinHex gs := by
  cases gs with
  | nil => simp [joinHex]
  | cons g gs =>
    rw [joinHex_cons, List.mem_append]
    exact not_or.mpr ⟨dot_not_mem_hex g, dot_not_mem_colonHex gs⟩

theorem ends_colonHex {gs : List Nat} {rest : List Char} (hrest : Stops rest) :
    Ends 16 (colonHex gs ++ rest) := by
  cases gs with
  | nil => exact hrest.ends (by decide)
  | cons g gs => exact ends_colon (by decide) _

theorem number_hex {g : Nat} {rest : List Char} (hg : g < 65536) (hrest : Ends 16 rest) :
    number 16 65536 (some 4) true (Nat.toDigits 16 g ++ rest) = some (g, rest) :=
  number_toDigits (by decide) (by decide) hg (fun w hw => by cases hw; omega) hrest

theorem groups_hex {g limit : Nat} {first : Bool} {cs more : List Char} (hg : g < 65536)
    (hstart : (if first then some cs else char ':' cs) = some (Nat.toDigits 16 g ++ more))
    (hbytes : fourBytes (Nat.toDigits 16 g ++ more) = none) (hmore : Ends 16 more) :
    groups (limit + 1) first cs = (g :: (groups limit false more).1, (groups limit false more).2) := by
  have hnumber := number_hex hg hmore
  simp [groups, hstart, hbytes, hnumber]

theorem groups_colonHex {gs : List Nat} {limit : Nat} {rest : List Char}
    (hgs : ∀ g ∈ gs, g < 65536) (hlimit : gs.length ≤ limit) (hrest : Stops rest)
    (hdot : '.' ∉ rest) : groups limit false (colonHex gs ++ rest) = (gs, false, rest) := by
  induction gs generalizing limit with
  | nil => exact groups_of_stops hrest limit false
  | cons g gs ih =>
    obtain ⟨limit, rfl⟩ := Nat.exists_eq_add_of_le' (Nat.le_trans (Nat.succ_pos _) hlimit)
    have hmore := ih (fun x hx => hgs x (List.mem_cons_of_mem _ hx))
      (Nat.le_of_succ_le_succ hlimit)
    have hcs : colonHex (g :: gs) ++ rest =
        ':' :: (Nat.toDigits 16 g ++ (colonHex gs ++ rest)) := by
      simp [colonHex]
    rw [hcs, groups_hex (hgs g List.mem_cons_self) rfl (fourBytes_of_no_dot ?_)
      (ends_colonHex hrest), hmore]
    simp only [List.mem_append, not_or]
    exact ⟨dot_not_mem_hex g, dot_not_mem_colonHex gs, hdot⟩

theorem groups_joinHex {gs : List Nat} {limit : Nat} {rest : List Char}
    (hgs : ∀ g ∈ gs, g < 65536) (hlimit : gs.length ≤ limit) (hrest : Stops rest)
    (hdot : '.' ∉ rest) : groups limit true (joinHex gs ++ rest) = (gs, false, rest) := by
  cases gs with
  | nil => exact groups_of_stops hrest limit true
  | cons g gs =>
    obtain ⟨limit, rfl⟩ := Nat.exists_eq_add_of_le' (Nat.le_trans (Nat.succ_pos _) hlimit)
    have hmore := groups_colonHex (fun x hx => hgs x (List.mem_cons_of_mem _ hx))
      (Nat.le_of_succ_le_succ hlimit) hrest hdot
    rw [joinHex_cons, List.append_assoc, groups_hex (hgs g List.mem_cons_self) rfl
      (fourBytes_of_no_dot ?_) (ends_colonHex hrest), hmore]
    simp only [List.mem_append, not_or]
    exact ⟨dot_not_mem_hex g, dot_not_mem_colonHex gs, hdot⟩

theorem longestZeros_run {gs : List Nat} {i start length : Nat}
    (h : longestZeros i gs = (start, length)) (hpos : 0 < length) :
    ∃ before after, gs = before ++ List.replicate length 0 ++ after ∧
      start = i + before.length := by
  induction gs generalizing i with
  | nil =>
    cases h
    cases hpos
  | cons g gs ih =>
    simp only [longestZeros] at h
    split at h
    next =>
      obtain ⟨rfl, rfl⟩ := Prod.mk.inj h
      have hzeros : (g :: gs).takeWhile (· = 0) =
          List.replicate ((g :: gs).takeWhile (· = 0)).length 0 := by
        refine List.eq_replicate_iff.mpr ⟨rfl, fun x hx => ?_⟩
        simpa using List.mem_takeWhile_imp hx
      refine ⟨[], (g :: gs).dropWhile (· = 0), ?_, rfl⟩
      rw [List.nil_append, ← hzeros, List.takeWhile_append_dropWhile]
    next =>
      obtain ⟨before, after, rfl, rfl⟩ := ih h
      exact ⟨g :: before, after, rfl, by simp; omega⟩

theorem eightGroups_joinHex {gs : List Nat} (hgs : ∀ g ∈ gs, g < 65536) (hlength : gs.length = 8) :
    eightGroups (joinHex gs) = some (gs, []) := by
  have hread := groups_joinHex hgs (Nat.le_of_eq hlength) (.inl rfl) List.not_mem_nil
  rw [List.append_nil] at hread
  simp [eightGroups, hread, hlength]

theorem eightGroups_of_gap {cs text : List Char} {head tail : List Nat} {bytes : Bool}
    (hhead : groups 8 true cs = (head, false, ':' :: ':' :: text)) (hshort : head.length ≠ 8)
    (htail : groups (7 - head.length) true text = (tail, bytes, [])) :
    eightGroups cs =
      some (head ++ List.replicate (8 - head.length - tail.length) 0 ++ tail, []) := by
  simp [eightGroups, hhead, hshort, char, htail]

theorem eightGroups_shortened {before after : List Nat} {length : Nat}
    (hbefore : ∀ g ∈ before, g < 65536) (hafter : ∀ g ∈ after, g < 65536) (hpos : 1 < length)
    (hlength : before.length + length + after.length = 8) :
    eightGroups (joinHex before ++ "::".toList ++ joinHex after) =
      some (before ++ List.replicate length 0 ++ after, []) := by
  have hcolons : joinHex before ++ "::".toList ++ joinHex after =
      joinHex before ++ ':' :: ':' :: joinHex after := by
    simp
  have hdot : '.' ∉ ':' :: ':' :: joinHex after := by
    simp [dot_not_mem_joinHex after]
  have hhead : groups 8 true (joinHex before ++ ':' :: ':' :: joinHex after) = _ :=
    groups_joinHex hbefore (by omega) (.inr ⟨_, rfl⟩) hdot
  have htail : groups (7 - before.length) true (joinHex after ++ []) = _ :=
    groups_joinHex hafter (by omega) (.inl rfl) List.not_mem_nil
  rw [List.append_nil] at htail
  have hzeros : 8 - before.length - after.length = length := by omega
  rw [hcolons, eightGroups_of_gap hhead (by omega) htail, hzeros]

theorem eightGroups_mapped {g h : Nat} (hg : g < 65536) (hh : h < 65536) :
    eightGroups ("::ffff:".toList ++ joinBytes [g / 256, g % 256, h / 256, h % 256]) =
      some ([0, 0, 0, 0, 0, 0xffff, g, h], []) := by
  let bytes := joinBytes [g / 256, g % 256, h / 256, h % 256]
  have hread : fourBytes bytes = some ([g / 256, g % 256, h / 256, h % 256], []) := by
    have hfour := fourBytes_joinBytes (by omega : g / 256 < 256) (by omega : g % 256 < 256)
      (by omega : h / 256 < 256) (by omega : h % 256 < 256) (ends_nil 10)
    rwa [List.append_nil] at hfour
  have hlast : groups 6 false (':' :: bytes) = ([g, h], true, []) := by
    simp [groups, char, hread, Nat.div_add_mod' g 256, Nat.div_add_mod' h 256]
  have hffff : "ffff:".toList ++ bytes = Nat.toDigits 16 0xffff ++ ':' :: bytes := by
    have hdigits : Nat.toDigits 16 0xffff = "ffff".toList := by decide
    rw [hdigits]
    rfl
  have htail : groups 7 true ("ffff:".toList ++ bytes) = ([0xffff, g, h], true, []) := by
    have hends : Ends 10 (Nat.toDigits 16 0xffff ++ ':' :: bytes) := by
      rw [← hffff]
      intro c hc
      cases Option.some.inj hc
      decide
    rw [groups_hex (g := 0xffff) (by decide) (by rw [hffff]; rfl) (fourBytes_of_ends hends)
      (ends_colon (by decide) _), hlast]
  have hhead : groups 8 true (':' :: ':' :: ("ffff:".toList ++ bytes)) =
      ([], false, ':' :: ':' :: ("ffff:".toList ++ bytes)) :=
    groups_of_stops (.inr ⟨_, rfl⟩) 8 true
  have hgap := eightGroups_of_gap hhead (by decide) htail
  exact hgap

theorem number_lt {radix limit n : Nat} {width : Option Nat} {zeroFirst : Bool}
    {cs rest : List Char} (h : number radix limit width zeroFirst cs = some (n, rest)) :
    n < limit := by
  simp only [number, Option.ite_none_left_eq_some, not_or, Option.some.injEq,
    Prod.mk.injEq] at h
  obtain ⟨⟨-, -, hle, -⟩, rfl, -⟩ := h
  exact Nat.lt_of_not_le hle

theorem fourBytes_fits {cs rest : List Char} {bytes : List Nat}
    (h : fourBytes cs = some (bytes, rest)) :
    ∃ a b c d, bytes = [a, b, c, d] ∧ a < 256 ∧ b < 256 ∧ c < 256 ∧ d < 256 := by
  simp only [fourBytes, Option.bind_eq_bind, Option.bind_eq_some_iff, Option.some.injEq,
    Prod.exists, Prod.mk.injEq] at h
  obtain ⟨a, _, ha, _, -, b, _, hb, _, -, c, _, hc, _, -, d, _, hd, rfl, -⟩ := h
  exact ⟨a, b, c, d, rfl, number_lt ha, number_lt hb, number_lt hc, number_lt hd⟩

theorem groups_fits (limit : Nat) (first : Bool) (cs : List Char) :
    (groups limit first cs).1.length ≤ limit ∧ ∀ g ∈ (groups limit first cs).1, g < 65536 := by
  induction limit generalizing first cs with
  | zero => simp [groups]
  | succ limit ih =>
    rw [groups]
    split
    next a b c d rest hbytes =>
      split at hbytes
      next hpos =>
        obtain ⟨start, -, hfour⟩ := Option.bind_eq_some_iff.mp hbytes
        obtain ⟨_, _, _, _, heq, ha, hb, hc, hd⟩ := fourBytes_fits hfour
        cases heq
        refine ⟨Nat.succ_le_succ hpos, fun g hg => ?_⟩
        simp only [List.mem_cons, List.not_mem_nil, or_false] at hg
        omega
      next => cases hbytes
    next =>
      split
      next => simp
      next g rest hnumber =>
        obtain ⟨start, -, hg⟩ := Option.bind_eq_some_iff.mp hnumber
        obtain ⟨hlength, hall⟩ := ih false rest
        refine ⟨Nat.succ_le_succ hlength, fun x hx => ?_⟩
        rcases List.mem_cons.mp hx with rfl | hx
        · exact number_lt hg
        · exact hall x hx

theorem eightGroups_fits {cs rest : List Char} {gs : List Nat}
    (h : eightGroups cs = some (gs, rest)) : gs.length = 8 ∧ ∀ g ∈ gs, g < 65536 := by
  obtain ⟨hlength, hall⟩ := groups_fits 8 true cs
  simp only [eightGroups] at h
  split at h
  next hfull =>
    cases h
    exact ⟨hfull, hall⟩
  next hfull =>
    split at h
    next => cases h
    next =>
      simp only [Option.bind_eq_bind, Option.bind_eq_some_iff, Option.some.injEq,
        Prod.mk.injEq] at h
      obtain ⟨_, -, more, -, rfl, -⟩ := h
      obtain ⟨hlength', hall'⟩ := groups_fits (7 - (groups 8 true cs).1.length) true more
      refine ⟨by simp; omega, fun g hg => ?_⟩
      simp only [List.mem_append, List.mem_replicate] at hg
      rcases hg with (hg | ⟨-, rfl⟩) | hg
      · exact hall g hg
      · decide
      · exact hall' g hg

end Address

namespace IpAddress

open Address

variable {a : IpAddress} {s : String}

/-- The parts of an address are as many and as small as they have to be. -/
def Fits : IpAddress → Prop
  | v4 bytes => ∃ a b c d, bytes = [a, b, c, d] ∧ a < 256 ∧ b < 256 ∧ c < 256 ∧ d < 256
  | v6 groups => groups.length = 8 ∧ ∀ n ∈ groups, n < 65536

theorem fits_of_ofText? (h : ofText? s = some a) : a.Fits := by
  have hip : ip s.toList = some (a, []) := by
    unfold ofText? at h
    split at h
    next heq =>
      cases h
      exact heq
    next => cases h
  unfold ip at hip
  split at hip
  next bytes rest hfour =>
    cases hip
    exact fourBytes_fits hfour
  next =>
    obtain ⟨⟨gs, rest⟩, height, heq⟩ := Option.map_eq_some_iff.mp hip
    cases heq
    exact eightGroups_fits height

/-- The short text of groups of which no others are written in their place. -/
theorem eightGroups_chars {gs : List Nat} (h : (v6 gs).Fits) :
    eightGroups (v6 gs).chars = some (gs, []) := by
  obtain ⟨hlength, hall⟩ := h
  unfold chars
  split
  next heq => cases heq
  next g h heq =>
    cases heq
    exact eightGroups_mapped (hall g (by simp)) (hall h (by simp))
  next heq =>
    cases heq
    cases hrun : longestZeros 0 gs with
    | mk start length =>
      simp only
      split
      next hlong =>
        obtain ⟨before, after, rfl, rfl⟩ := longestZeros_run hrun (by omega)
        have htake : (before ++ List.replicate length 0 ++ after).take (0 + before.length) =
            before := by
          simp
        have hdrop : (before ++ List.replicate length 0 ++ after).drop
            (0 + before.length + length) = after := by
          simp
        rw [htake, hdrop]
        exact eightGroups_shortened (fun g hg => hall g (by simp [hg]))
          (fun g hg => hall g (by simp [hg])) hlong
          (by simpa [Nat.add_assoc] using hlength)
      next => exact eightGroups_joinHex hall hlength

/-- The text of longer addresses is not that of four bytes. -/
theorem fourBytes_chars_v6 (gs : List Nat) : fourBytes (v6 gs).chars = none := by
  unfold chars
  split
  next heq => cases heq
  next => exact fourBytes_of_ends (ends_colon (by decide) _)
  next heq =>
    cases heq
    refine fourBytes_of_no_dot ?_
    cases longestZeros 0 gs with
    | mk start length =>
      simp only
      split
      next =>
        have hcolons : '.' ∉ "::".toList := by decide
        simp only [List.mem_append, not_or]
        exact ⟨⟨dot_not_mem_joinHex _, hcolons⟩, dot_not_mem_joinHex _⟩
      next => exact dot_not_mem_joinHex _

theorem ip_chars (h : a.Fits) : ip a.chars = some (a, []) := by
  cases a with
  | v4 bytes =>
    obtain ⟨a, b, c, d, rfl, ha, hb, hc, hd⟩ := h
    have hfour := fourBytes_joinBytes ha hb hc hd (ends_nil 10)
    rw [List.append_nil] at hfour
    have hchars : (v4 [a, b, c, d]).chars = joinBytes [a, b, c, d] := rfl
    rw [ip, hchars, hfour]
  | v6 gs =>
    rw [ip, fourBytes_chars_v6, eightGroups_chars h]
    rfl

/-- The text of an address that can be read denotes the same address. -/
theorem ofText?_text (h : ofText? s = some a) : ofText? a.text = some a := by
  have hread := ip_chars (fits_of_ofText? h)
  simp [ofText?, text, hread]

end IpAddress

end Switchboard
