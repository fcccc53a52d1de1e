import Switchboard.Proofs.Numbers.Spellings
import Switchboard.Reporting.Counters

namespace Switchboard.Reporting

/-- A text with its lines. A line feed ends a line, with a carriage return before it or without; what
stands after the last one is a line too. -/
inductive Lines : List Char → List (List Char) → Prop where
  | empty : Lines [] []
  | unended {line : List Char} (hne : line ≠ []) (hline : '\n' ∉ line) : Lines line [line]
  | feed {line text : List Char} {lines : List (List Char)} (hline : '\n' ∉ line)
      (hreturn : line.getLast? ≠ some '\r') (h : Lines text lines) :
      Lines (line ++ '\n' :: text) (line :: lines)
  | returnFeed {line text : List Char} {lines : List (List Char)} (hline : '\n' ∉ line)
      (h : Lines text lines) : Lines (line ++ '\r' :: '\n' :: text) (line :: lines)

section Lines

variable {c : Char} {line text : List Char} {lines : List (List Char)}

theorem linesOf_cons (hfeed : c ≠ '\n') (hreturn : c = '\r' → text.head? ≠ some '\n') :
    linesOf (c :: text) =
      match linesOf text with
      | [] => [[c]]
      | l :: ls => (c :: l) :: ls :=
  linesOf.eq_4 c text hfeed fun rest hc htext => hreturn hc (by rw [htext]; rfl)

theorem linesOf_append (hline : '\n' ∉ line)
    (hreturn : text.head? = some '\n' → line.getLast? ≠ some '\r')
    (h : linesOf text = [] :: lines) : linesOf (line ++ text) = line :: lines := by
  induction line with
  | nil => exact h
  | cons c rest ih =>
    obtain ⟨hc, hrest⟩ := not_or.mp (mt List.mem_cons.mpr hline)
    have hlast : text.head? = some '\n' → rest.getLast? ≠ some '\r' := fun hfeed hr =>
      hreturn hfeed (by rw [List.getLast?_cons, hr]; rfl)
    have hnext : c = '\r' → (rest ++ text).head? ≠ some '\n' := by
      rintro rfl hhead
      cases rest with
      | nil => exact hreturn hhead rfl
      | cons d more => exact hrest (Option.some.inj hhead ▸ List.mem_cons_self)
    rw [List.cons_append, linesOf_cons (Ne.symm hc) hnext, ih hrest hlast]

theorem linesOf_unended (hne : line ≠ []) (hline : '\n' ∉ line) : linesOf line = [line] := by
  induction line with
  | nil => exact absurd rfl hne
  | cons c rest ih =>
    obtain ⟨hc, hrest⟩ := not_or.mp (mt List.mem_cons.mpr hline)
    have hnext : c = '\r' → rest.head? ≠ some '\n' := fun _ hhead =>
      hrest (List.mem_of_head? hhead)
    rw [linesOf_cons (Ne.symm hc) hnext]
    cases rest with
    | nil => rfl
    | cons d more => rw [ih (List.cons_ne_nil _ _) hrest]

theorem Lines.linesOf_eq (h : Lines text lines) : linesOf text = lines := by
  induction h with
  | empty => rfl
  | unended hne hline => exact linesOf_unended hne hline
  | feed hline hreturn _ ih =>
    refine linesOf_append hline (fun _ => hreturn) ?_
    rw [linesOf, ih]
  | returnFeed hline _ ih =>
    refine linesOf_append hline (fun hhead => ?_) ?_
    · cases hhead
    · rw [linesOf, ih]

theorem Lines.cons (hfeed : c ≠ '\n') (hreturn : c = '\r' → text.head? ≠ some '\n')
    (h : Lines text (line :: lines)) : Lines (c :: text) ((c :: line) :: lines) := by
  have hmem : ∀ {l : List Char}, '\n' ∉ l → '\n' ∉ c :: l := fun hl hmem =>
    (List.mem_cons.mp hmem).elim (hfeed ·.symm) hl
  cases h with
  | unended hne hline => exact .unended (List.cons_ne_nil _ _) (hmem hline)
  | feed hline hlast h =>
    refine @Lines.feed (c :: line) _ _ (hmem hline) (fun hc => ?_) h
    cases line with
    | nil => exact hreturn (Option.some.inj hc) rfl
    | cons d more => exact hlast hc
  | returnFeed hline h => exact @Lines.returnFeed (c :: line) _ _ (hmem hline) h

theorem lines_linesOf (text : List Char) : Lines text (linesOf text) := by
  induction text using linesOf.induct with
  | case1 => exact .empty
  | case2 cs ih => exact @Lines.feed [] _ _ List.not_mem_nil nofun ih
  | case3 cs ih => exact @Lines.returnFeed [] _ _ List.not_mem_nil ih
  | case4 c cs hfeed hreturn hcs ih =>
    rw [linesOf.eq_4 c cs hfeed hreturn, hcs]
    rw [hcs] at ih
    cases ih with
    | empty => exact .unended (List.cons_ne_nil _ _) fun h => hfeed (List.mem_singleton.mp h).symm
  | case5 c cs hfeed hreturn l ls hcs ih =>
    rw [linesOf.eq_4 c cs hfeed hreturn, hcs]
    rw [hcs] at ih
    refine ih.cons hfeed fun hc hhead => ?_
    obtain ⟨rest, hrest⟩ := List.head?_eq_some_iff.mp hhead
    exact hreturn rest hc hrest

theorem lines_iff : Lines text lines ↔ linesOf text = lines :=
  ⟨Lines.linesOf_eq, fun h => h ▸ lines_linesOf text⟩

end Lines

/-- A line with its words, which blanks keep apart. -/
inductive Words : List Char → List (List Char) → Prop where
  | blank {cs : List Char} (h : Blank cs) : Words cs []
  | word {before w rest : List Char} {ws : List (List Char)} (hbefore : Blank before) (hne : w ≠ [])
      (hw : ∀ c ∈ w, Unicode.isBlank c = false) (hrest : ∀ c ∈ rest.head?, Unicode.isBlank c = true)
      (h : Words rest ws) : Words (before ++ w ++ rest) (w :: ws)

section Words

variable {c : Char} {cs acc w rest : List Char} {ws : List (List Char)}

theorem wordsFrom_blank_append (h : Blank cs) (rest : List Char) :
    wordsFrom [] (cs ++ rest) = wordsFrom [] rest := by
  induction cs with
  | nil => rfl
  | cons c more ih =>
    rw [List.cons_append, wordsFrom, if_pos (h c List.mem_cons_self)]
    exact ih fun d hd => h d (List.mem_cons_of_mem _ hd)

theorem wordsFrom_word_append (h : ∀ c ∈ w, Unicode.isBlank c = false) (acc rest : List Char) :
    wordsFrom acc (w ++ rest) = wordsFrom (w.reverse ++ acc) rest := by
  induction w generalizing acc with
  | nil => rfl
  | cons c more ih =>
    have hc : ¬Unicode.isBlank c = true := ne_true_of_eq_false (h c List.mem_cons_self)
    rw [List.cons_append, wordsFrom, if_neg hc, ih fun d hd => h d (List.mem_cons_of_mem _ hd),
      List.reverse_cons, List.append_assoc]
    rfl

theorem wordsFrom_end (hacc : acc ≠ []) (h : ∀ c ∈ rest.head?, Unicode.isBlank c = true) :
    wordsFrom acc rest = acc.reverse :: wordsFrom [] rest := by
  have hempty : ¬acc.isEmpty = true := mt List.isEmpty_iff.mp hacc
  cases rest with
  | nil => rw [wordsFrom, if_neg hempty]; rfl
  | cons c more =>
    have hc : Unicode.isBlank c = true := h c rfl
    rw [wordsFrom, if_pos hc, if_neg hempty, wordsFrom, if_pos hc]
    rfl

theorem Words.wordsOf_eq (h : Words cs ws) : wordsOf cs = ws := by
  induction h with
  | @blank cs h =>
    have hcs := wordsFrom_blank_append h []
    rwa [List.append_nil] at hcs
  | @word before w rest ws hbefore hne hw hrest _ ih =>
    have hacc : w.reverse ++ [] ≠ [] := by simpa using hne
    rw [wordsOf, List.append_assoc, wordsFrom_blank_append hbefore, wordsFrom_word_append hw,
      wordsFrom_end hacc hrest, List.append_nil, List.reverse_reverse]
    exact congrArg _ ih

theorem Words.cons_blank (hc : Unicode.isBlank c = true) (h : Words cs ws) : Words (c :: cs) ws := by
  have hcons : ∀ {before : List Char}, Blank before → Blank (c :: before) :=
    fun hbefore => List.forall_mem_cons.mpr ⟨hc, hbefore⟩
  cases h with
  | blank h => exact .blank (hcons h)
  | word hbefore hne hw hrest h => exact .word (hcons hbefore) hne hw hrest h

theorem words_wordsFrom (acc cs : List Char) (hacc : ∀ c ∈ acc, Unicode.isBlank c = false) :
    Words (acc.reverse ++ cs) (wordsFrom acc cs) := by
  induction cs generalizing acc with
  | nil =>
    rw [wordsFrom]
    split
    next hempty =>
      rw [List.isEmpty_iff.mp hempty]
      exact .blank blank_nil
    next hne =>
      exact .word blank_nil (by simpa using hne) (by simpa using hacc) nofun (.blank blank_nil)
  | cons c rest ih =>
    have hrest : Words rest (wordsFrom [] rest) := ih [] nofun
    rw [wordsFrom]
    split
    next hblank =>
      split
      next hempty =>
        rw [List.isEmpty_iff.mp hempty]
        exact hrest.cons_blank hblank
      next hne =>
        refine @Words.word [] _ _ _ blank_nil (by simpa using hne) (by simpa using hacc) ?_
          (hrest.cons_blank hblank)
        intro d hd
        exact Option.some.inj hd ▸ hblank
    next hnot =>
      have hword := ih (c :: acc) (List.forall_mem_cons.mpr ⟨eq_false_of_ne_true hnot, hacc⟩)
      rwa [List.reverse_cons, List.append_assoc] at hword

theorem words_iff : Words cs ws ↔ wordsOf cs = ws :=
  ⟨Words.wordsOf_eq, fun h => h ▸ words_wordsFrom [] cs nofun⟩

end Words

def unsigned : List Char → List Char
  | '+' :: cs => cs
  | cs => cs

theorem eq_unsigned (cs : List Char) : cs = unsigned cs ∨ cs = '+' :: unsigned cs := by
  unfold unsigned
  split
  next => exact .inr rfl
  next => exact .inl rfl

/-- Decimal digits that stand for a number, with a plus sign before them or without. -/
structure Numeral (cs : List Char) (n : Nat) : Prop where
  notEmpty : unsigned cs ≠ []
  digits : ∀ c ∈ unsigned cs, c.isDigit = true
  value : Nat.ofDigitChars 10 (unsigned cs) 0 = n

section Numbers

variable {cs : List Char} {n : Nat}

theorem wordOfText?_eq (cs : List Char) : wordOfText? cs =
    if (unsigned cs).isEmpty || !(unsigned cs).all Char.isDigit ||
      wordLimit ≤ decimalValue (unsigned cs) then none else some (decimalValue (unsigned cs)) := by
  unfold wordOfText?
  split
  next => rfl
  next hsign => rw [unsigned.eq_2 cs hsign]; rfl

theorem wordOfText?_eq_some_iff : wordOfText? cs = some n ↔ Numeral cs n ∧ n < wordLimit := by
  rw [wordOfText?_eq, decimalValue_eq]
  constructor
  · intro h
    split at h
    next => cases h
    next hnot =>
      simp only [Bool.or_eq_true, List.isEmpty_iff, Bool.not_eq_true', List.all_eq_false,
        decide_eq_true_eq, not_or, not_exists, not_and, not_not, Nat.not_le] at hnot
      obtain ⟨⟨hne, hdigits⟩, hlt⟩ := hnot
      cases h
      exact ⟨⟨hne, hdigits, rfl⟩, hlt⟩
  · rintro ⟨⟨hne, hdigits, rfl⟩, hlt⟩
    have hempty : (unsigned cs).isEmpty = false := List.isEmpty_eq_false_iff.mpr hne
    have hall : (unsigned cs).all Char.isDigit = true := List.all_eq_true.mpr hdigits
    have hfits : decide (wordLimit ≤ Nat.ofDigitChars 10 (unsigned cs) 0) = false :=
      decide_eq_false (Nat.not_le.mpr hlt)
    rw [hempty, hall, hfits]
    rfl

namespace Numeral

theorem ne_nil (h : Numeral cs n) : cs ≠ [] := by
  rintro rfl
  exact h.notEmpty rfl

theorem char {c : Char} (h : Numeral cs n) (hc : c ∈ cs) : c = '+' ∨ c.isDigit = true := by
  rcases eq_unsigned cs with heq | heq
  · exact .inr (h.digits c (heq ▸ hc))
  · rw [heq] at hc
    exact (List.mem_cons.mp hc).imp_right (h.digits c)

theorem isBlank {c : Char} (h : Numeral cs n) (hc : c ∈ cs) : Unicode.isBlank c = false := by
  rcases h.char hc with rfl | hdigit
  · rfl
  · exact Unicode.isBlank_of_isDigit hdigit

end Numeral

/-- The numbers that words start with, up to the first word that is no number of 64 bits. -/
inductive Leading : List (List Char) → List Nat → Prop where
  | none : Leading [] []
  | stop {w : List Char} {ws : List (List Char)} (h : ∀ n, Numeral w n → wordLimit ≤ n) :
      Leading (w :: ws) []
  | more {w : List Char} {ws : List (List Char)} {n : Nat} {ns : List Nat} (hw : Numeral w n)
      (hn : n < wordLimit) (h : Leading ws ns) : Leading (w :: ws) (n :: ns)

theorem Leading.leadingNumbers_eq {ws : List (List Char)} {ns : List Nat} (h : Leading ws ns) :
    leadingNumbers ws = ns := by
  induction h with
  | none => rfl
  | @stop w ws h =>
    rw [leadingNumbers]
    cases hw : wordOfText? w with
    | none => rfl
    | some n =>
      obtain ⟨hnumeral, hlt⟩ := wordOfText?_eq_some_iff.mp hw
      exact absurd hlt (Nat.not_lt.mpr (h n hnumeral))
  | more hw hn _ ih => rw [leadingNumbers, wordOfText?_eq_some_iff.mpr ⟨hw, hn⟩, ih]

theorem leading_leadingNumbers (ws : List (List Char)) : Leading ws (leadingNumbers ws) := by
  induction ws with
  | nil => exact .none
  | cons w rest ih =>
    rw [leadingNumbers]
    cases hw : wordOfText? w with
    | none =>
      refine .stop fun n hn => Nat.le_of_not_lt fun hlt => ?_
      rw [wordOfText?_eq_some_iff.mpr ⟨hn, hlt⟩] at hw
      cases hw
    | some n =>
      obtain ⟨hnumeral, hlt⟩ := wordOfText?_eq_some_iff.mp hw
      exact .more hnumeral hlt ih

theorem leading_iff {ws : List (List Char)} {ns : List Nat} :
    Leading ws ns ↔ leadingNumbers ws = ns :=
  ⟨Leading.leadingNumbers_eq, fun h => h ▸ leading_leadingNumbers ws⟩

end Numbers

/-- A line that tells the times of a processor: a first word that starts with the three letters and
goes on with the name, and of the eight words after it at least four that are numbers. -/
structure ProcessorLine (line name : List Char) (numbers : List Nat) : Prop where
  words : ∃ fields, Words line (('c' :: 'p' :: 'u' :: name) :: fields) ∧
    Leading (fields.take 8) numbers
  enough : 4 ≤ numbers.length

def labelOf (name : List Char) : String := if name.isEmpty then "average" else String.ofList name

section ProcessorLines

variable {line name : List Char} {label : String} {numbers : List Nat}

theorem ProcessorLine.cpuLine?_eq (h : ProcessorLine line name numbers) :
    cpuLine? line = some (labelOf name, numbers) := by
  obtain ⟨⟨fields, hwords, hleading⟩, henough⟩ := h
  obtain rfl := leading_iff.mp hleading
  rw [cpuLine?, words_iff.mp hwords]
  exact if_neg (Nat.not_lt.mpr henough)

theorem cpuLine?_eq_some_iff : cpuLine? line = some (label, numbers) ↔
    ∃ name, ProcessorLine line name numbers ∧ label = labelOf name := by
  constructor
  · intro h
    unfold cpuLine? at h
    split at h
    next name fields hwords =>
      dsimp only at h
      split at h
      next => cases h
      next henough =>
        cases h
        exact ⟨name, ⟨⟨fields, words_iff.mpr hwords, leading_leadingNumbers _⟩,
          Nat.le_of_not_lt henough⟩, rfl⟩
    next => cases h
  · rintro ⟨name, h, rfl⟩
    exact h.cpuLine?_eq

end ProcessorLines

def unitText (times : Nat) : List Char := (List.replicate times ['k', 'B']).flatten

/-- What stands after the colon: a number with blanks around it, then the unit, however often, and
blanks again. -/
def Figure (cs : List Char) (n : Nat) : Prop :=
  ∃ before digits between times after, Numeral digits n ∧ Blank before ∧ Blank between ∧
    Blank after ∧ cs = before ++ (digits ++ between ++ unitText times) ++ after

section Figures

variable {before cs after : List Char} {n : Nat}

theorem unitText_succ (times : Nat) : unitText (times + 1) = unitText times ++ ['k', 'B'] := by
  rw [unitText, List.replicate_succ', List.flatten_append]
  rfl

theorem dropUnit_append_unit (cs : List Char) (times : Nat) :
    dropUnit (cs ++ unitText times) = dropUnit cs := by
  induction times with
  | zero => rw [unitText, List.replicate_zero, List.flatten_nil, List.append_nil]
  | succ times ih =>
    rw [unitText_succ, ← List.append_assoc, dropUnit, List.reverse_append]
    exact ih

theorem dropReversedUnit_eq_self (h : cs.head? ≠ some 'B') : dropReversedUnit cs = cs := by
  unfold dropReversedUnit
  split
  next => exact absurd rfl h
  next => rfl

theorem dropUnit_eq_self (h : cs.getLast? ≠ some 'B') : dropUnit cs = cs := by
  rw [← List.head?_reverse] at h
  rw [dropUnit, dropReversedUnit_eq_self h, List.reverse_reverse]

theorem exists_dropUnit (cs : List Char) : ∃ times, cs = dropUnit cs ++ unitText times := by
  have hrev : ∀ ds, ∃ times, ds.reverse = (dropReversedUnit ds).reverse ++ unitText times := by
    intro ds
    induction ds using dropReversedUnit.induct with
    | case1 rest ih =>
      obtain ⟨times, htimes⟩ := ih
      refine ⟨times + 1, ?_⟩
      rw [dropReversedUnit, unitText_succ, ← List.append_assoc, ← htimes, List.reverse_cons,
        List.reverse_cons, List.append_assoc]
      rfl
    | case2 rest hrest =>
      refine ⟨0, ?_⟩
      rw [dropReversedUnit.eq_2 rest hrest]
      exact (List.append_nil _).symm
  have h := hrev cs.reverse
  rwa [List.reverse_reverse] at h

theorem exists_trimBlanks (cs : List Char) : ∃ before after, Blank before ∧ Blank after ∧
    cs = before ++ Unicode.trimBlanks cs ++ after := by
  refine ⟨cs.takeWhile Unicode.isBlank,
    ((cs.dropWhile Unicode.isBlank).reverse.takeWhile Unicode.isBlank).reverse,
    fun c hc => List.mem_takeWhile_imp hc,
    fun c hc => List.mem_takeWhile_imp (List.mem_reverse.mp hc), ?_⟩
  rw [Unicode.trimBlanks, List.append_assoc, ← List.reverse_append,
    List.takeWhile_append_dropWhile, List.reverse_reverse, List.takeWhile_append_dropWhile]

theorem blank_append (hbefore : Blank before) (hafter : Blank after) : Blank (before ++ after) :=
  List.forall_mem_append.mpr ⟨hbefore, hafter⟩

namespace Numeral

variable {digits spaces between : List Char}

theorem trimBlanks_spaced (h : Numeral digits n) (hspaces : Blank spaces) :
    Unicode.trimBlanks (digits ++ spaces) = digits :=
  Unicode.trimBlanks_surrounded blank_nil hspaces fun _ hc => h.isBlank hc

theorem dropUnit_spaced (h : Numeral digits n) (hspaces : Blank spaces) :
    dropUnit (digits ++ spaces) = digits ++ spaces := by
  refine dropUnit_eq_self fun hlast => ?_
  rcases List.mem_append.mp (List.mem_of_getLast? hlast) with hmem | hmem
  · rcases h.char hmem with heq | hdigit
    · cases heq
    · cases hdigit
  · cases hspaces _ hmem

/-- Trimmed and without its unit, a figure is its number with blanks after it. -/
theorem exists_spaces (h : Numeral digits n) (hbefore : Blank before) (hbetween : Blank between)
    (hafter : Blank after) (times : Nat) : ∃ spaces, Blank spaces ∧
      dropUnit (Unicode.trimBlanks (before ++ (digits ++ between ++ unitText times) ++ after)) =
        digits ++ spaces := by
  cases times with
  | zero =>
    -- without a unit the blanks on both sides of it are trimmed off at once
    have hends : before ++ (digits ++ between ++ unitText 0) ++ after =
        before ++ digits ++ (between ++ after) := by
      simp [unitText]
    have htrim := Unicode.trimBlanks_surrounded hbefore (blank_append hbetween hafter)
      fun _ hc => h.isBlank hc
    have hdrop := h.dropUnit_spaced blank_nil
    rw [List.append_nil] at hdrop
    exact ⟨[], blank_nil, by rw [hends, htrim, hdrop, List.append_nil]⟩
  | succ times =>
    have hfirst : ∀ c ∈ (digits ++ between ++ unitText (times + 1)).head?,
        Unicode.isBlank c = false := by
      intro c hc
      rw [List.append_assoc, List.head?_append_of_ne_nil _ h.ne_nil] at hc
      exact h.isBlank (List.mem_of_head? hc)
    have hlast : ∀ c ∈ (digits ++ between ++ unitText (times + 1)).getLast?,
        Unicode.isBlank c = false := by
      intro c hc
      rw [unitText_succ, ← List.append_assoc, List.getLast?_append] at hc
      cases hc
      rfl
    refine ⟨between, hbetween, ?_⟩
    rw [Unicode.trimBlanks_bounded hbefore hafter hfirst hlast, dropUnit_append_unit,
      h.dropUnit_spaced hbetween]

end Numeral

theorem Figure.trimmed (h : Figure cs n) :
    Numeral (Unicode.trimBlanks (dropUnit (Unicode.trimBlanks cs))) n := by
  obtain ⟨before, digits, between, times, after, hdigits, hbefore, hbetween, hafter, rfl⟩ := h
  obtain ⟨spaces, hspaces, hdrop⟩ := hdigits.exists_spaces hbefore hbetween hafter times
  rw [hdrop, hdigits.trimBlanks_spaced hspaces]
  exact hdigits

theorem Figure.of_trimmed
    (h : Numeral (Unicode.trimBlanks (dropUnit (Unicode.trimBlanks cs))) n) : Figure cs n := by
  obtain ⟨before, after, hbefore, hafter, hcs⟩ := exists_trimBlanks cs
  obtain ⟨times, htimes⟩ := exists_dropUnit (Unicode.trimBlanks cs)
  obtain ⟨ahead, between, hahead, hbetween, hinner⟩ :=
    exists_trimBlanks (dropUnit (Unicode.trimBlanks cs))
  refine ⟨before ++ ahead, _, between, times, after, h, blank_append hbefore hahead, hbetween,
    hafter, ?_⟩
  conv_lhs => rw [hcs, htimes, hinner]
  simp only [List.append_assoc]

theorem figure_iff :
    Figure cs n ↔ Numeral (Unicode.trimBlanks (dropUnit (Unicode.trimBlanks cs))) n :=
  ⟨Figure.trimmed, Figure.of_trimmed⟩

end Figures

/-- A line about memory: one of the names, a colon, and a figure. -/
def MemoryLine (line : List Char) (key : String) (n : Nat) : Prop :=
  ∃ rest, line = key.toList ++ ':' :: rest ∧ Figure rest n

section MemoryLines

variable {line rest : List Char} {key name : String} {n : Nat}

theorem tail?_drop_eq_some_iff :
    (line.drop (line.takeWhile (· != ':')).length).tail? = some rest ↔
      line = line.takeWhile (· != ':') ++ ':' :: rest := by
  induction line with
  | nil => simp
  | cons c cs ih =>
    by_cases hc : c = ':'
    · subst hc
      simp [eq_comm]
    · have htake : (c :: cs).takeWhile (· != ':') = c :: cs.takeWhile (· != ':') :=
        List.takeWhile_cons_of_pos (bne_iff_ne.mpr hc)
      rw [htake, List.length_cons, List.drop_succ_cons, ih, List.cons_append, List.cons.injEq]
      exact (and_iff_right rfl).symm

theorem takeWhile_colon {cs : List Char} (h : ':' ∉ cs) (rest : List Char) :
    (cs ++ ':' :: rest).takeWhile (· != ':') = cs := by
  have hcs : ∀ c ∈ cs, (c != ':') = true := fun c hc => bne_iff_ne.mpr fun heq => h (heq ▸ hc)
  rw [List.takeWhile_append_of_pos hcs, List.takeWhile_cons_of_neg (by decide), List.append_nil]

theorem lookup_memoryNames : memoryNames.lookup key = some name ↔ (key, name) ∈ memoryNames := by
  constructor
  · intro h
    obtain ⟨before, after, heq, -⟩ := List.lookup_eq_some_iff.mp h
    rw [heq]
    exact List.mem_append_right _ List.mem_cons_self
  · intro h
    have hall : ∀ e ∈ memoryNames, memoryNames.lookup e.1 = some e.2 := by decide
    exact hall _ h

theorem memoryLine?_eq_some_iff : memoryLine? line = some (name, n) ↔
    ∃ key, (key, name) ∈ memoryNames ∧ MemoryLine line key n ∧ n < wordLimit := by
  have hcolon : ∀ e ∈ memoryNames, ':' ∉ e.1.toList := by decide
  unfold memoryLine?
  constructor
  · intro h
    obtain ⟨rest, hrest, h⟩ := Option.bind_eq_some_iff.mp h
    obtain ⟨told, htold, h⟩ := Option.bind_eq_some_iff.mp h
    obtain ⟨m, hm, h⟩ := Option.bind_eq_some_iff.mp h
    cases h
    obtain ⟨hnumeral, hlt⟩ := wordOfText?_eq_some_iff.mp hm
    refine ⟨_, lookup_memoryNames.mp htold, ⟨rest, ?_, figure_iff.mpr hnumeral⟩, hlt⟩
    rw [String.toList_ofList]
    exact tail?_drop_eq_some_iff.mp hrest
  · rintro ⟨key, hkey, ⟨rest, rfl, hfigure⟩, hlt⟩
    have htake := takeWhile_colon (hcolon _ hkey) rest
    have hrest := tail?_drop_eq_some_iff.mpr (congrArg (· ++ ':' :: rest) htake).symm
    refine Option.bind_eq_some_iff.mpr ⟨rest, hrest, ?_⟩
    refine Option.bind_eq_some_iff.mpr ⟨name, ?_, ?_⟩
    · rw [htake, String.ofList_toList]
      exact lookup_memoryNames.mpr hkey
    · exact Option.bind_eq_some_iff.mpr
        ⟨n, wordOfText?_eq_some_iff.mpr ⟨figure_iff.mp hfigure, hlt⟩, rfl⟩

end MemoryLines

end Switchboard.Reporting
