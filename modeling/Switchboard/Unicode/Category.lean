import Switchboard.Unicode.CategoryTable

namespace Switchboard.Unicode

inductive Category where
  | Lu | Ll | Lt | Lm | Lo | Mn | Mc | Me | Nd | Nl | No | Pc | Pd | Ps | Pe | Pi | Pf | Po
  | Sm | Sc | Sk | So | Zs | Zl | Zp | Cc | Cf | Cs | Co | Cn
deriving DecidableEq, Repr

namespace Category

def ofName? (name : List Char) : Option Category :=
  match name with
  | ['L', 'u'] => some Lu
  | ['L', 'l'] => some Ll
  | ['L', 't'] => some Lt
  | ['L', 'm'] => some Lm
  | ['L', 'o'] => some Lo
  | ['M', 'n'] => some Mn
  | ['M', 'c'] => some Mc
  | ['M', 'e'] => some Me
  | ['N', 'd'] => some Nd
  | ['N', 'l'] => some Nl
  | ['N', 'o'] => some No
  | ['P', 'c'] => some Pc
  | ['P', 'd'] => some Pd
  | ['P', 's'] => some Ps
  | ['P', 'e'] => some Pe
  | ['P', 'i'] => some Pi
  | ['P', 'f'] => some Pf
  | ['P', 'o'] => some Po
  | ['S', 'm'] => some Sm
  | ['S', 'c'] => some Sc
  | ['S', 'k'] => some Sk
  | ['S', 'o'] => some So
  | ['Z', 's'] => some Zs
  | ['Z', 'l'] => some Zl
  | ['Z', 'p'] => some Zp
  | ['C', 'c'] => some Cc
  | ['C', 'f'] => some Cf
  | ['C', 's'] => some Cs
  | ['C', 'o'] => some Co
  | ['C', 'n'] => some Cn
  | _ => none

end Category

/-- The runs of a table read so far: where each starts, in increasing order, and the code point
after the last one, with the length being read. -/
structure RunReader where
  runs : Array (Nat × Category)
  next : Nat
  length : Nat
  name : List Char

def RunReader.push (r : RunReader) (c : Char) : RunReader :=
  if c.isDigit then { r with length := r.length * 10 + (c.toNat - 48) }
  else if c == ' ' || c == '\n' then r
  else
    let name := r.name ++ [c]
    match Category.ofName? name with
    | some category => ⟨r.runs.push (r.next, category), r.next + r.length, 0, []⟩
    | none => { r with name }

def categoryRuns : Array (Nat × Category) :=
  (categoryText.toList.foldl RunReader.push ⟨#[], 0, 0, []⟩).runs

/-- The greatest index from `low` on and below `high` whose run does not start after `target`. -/
def findRun (runs : Array (Nat × Category)) (target : Nat) : Nat → Nat → Nat → Nat
  | 0, low, _ => low
  | fuel + 1, low, high =>
    if low + 1 < high then
      let middle := (low + high) / 2
      if (runs.getD middle (0, .Cn)).1 ≤ target then findRun runs target fuel middle high
      else findRun runs target fuel low middle
    else low

def category (c : Char) : Category :=
  let i := findRun categoryRuns c.toNat 16 0 categoryRuns.size
  (categoryRuns.getD i (0, .Cn)).2

def isBlank (c : Char) : Bool :=
  c == ' ' || ('\t' ≤ c && c ≤ '\r') || c == '\u0085' || c == '\u00a0' || c == '\u1680' ||
    ('\u2000' ≤ c && c ≤ '\u200a') || c == '\u2028' || c == '\u2029' || c == '\u202f' ||
    c == '\u205f' || c == '\u3000'

def trimBlanks (cs : List Char) : List Char :=
  ((cs.dropWhile isBlank).reverse.dropWhile isBlank).reverse

def trim (s : String) : String := String.ofList (trimBlanks s.toList)

def inRanges (ranges : List (Nat × Nat)) (c : Char) : Bool :=
  ranges.any fun r => r.1 ≤ c.toNat && c.toNat ≤ r.2

def spacingExtenders : List (Nat × Nat) :=
  [(0x9be, 0x9be), (0x9d7, 0x9d7), (0xb3e, 0xb3e), (0xb57, 0xb57), (0xbbe, 0xbbe), (0xbd7, 0xbd7),
   (0xcc0, 0xcc0), (0xcc2, 0xcc2), (0xcc7, 0xcc8), (0xcca, 0xccb), (0xcd5, 0xcd6), (0xd3e, 0xd3e),
   (0xd57, 0xd57), (0xdcf, 0xdcf), (0xddf, 0xddf), (0x1b35, 0x1b35), (0x200c, 0x200c),
   (0x302e, 0x302f), (0xff9e, 0xff9f), (0x1133e, 0x1133e), (0x11357, 0x11357), (0x114b0, 0x114b0),
   (0x114bd, 0x114bd), (0x115af, 0x115af), (0x11930, 0x11930), (0x1d165, 0x1d165),
   (0x1d16e, 0x1d172), (0xe0020, 0xe007f)]

def extendsGrapheme (c : Char) : Bool :=
  category c == .Mn || category c == .Me || inRanges spacingExtenders c

/-- Whether a character leaves a visible mark; of all blanks only the space counts as visible. -/
def isPrintable (c : Char) : Bool :=
  c == ' ' || !(category c ∈ [Category.Cc, .Cf, .Cs, .Co, .Cn, .Zs, .Zl, .Zp])

end Switchboard.Unicode
