import Switchboard.Unicode.CaseTable
import Switchboard.Unicode.Category

namespace Switchboard.Unicode

def CaseRun.covers (run : CaseRun) (n : Nat) : Bool :=
  run.first ≤ n && n ≤ run.last && (n - run.first) % run.step == 0

def mapBy (runs : List CaseRun) (c : Char) : Char :=
  match runs.find? fun run => run.covers c.toNat with
  | some run => Char.ofNat (c.toNat + run.shift).toNat
  | none => c

def fold (c : Char) : Char := mapBy foldRuns c

def caseVariants (c : Char) : List Char :=
  let f := fold c
  f :: foldRuns.filterMap fun run =>
    let n := ((f.toNat : Int) - run.shift).toNat
    if run.covers n then some (Char.ofNat n) else none

def otherCased : List (Nat × Nat) :=
  [(0xaa, 0xaa), (0xba, 0xba), (0x2b0, 0x2b8), (0x2c0, 0x2c1), (0x2e0, 0x2e4), (0x345, 0x345),
   (0x37a, 0x37a), (0x10fc, 0x10fc), (0x1d2c, 0x1d6a), (0x1d78, 0x1d78), (0x1d9b, 0x1dbf),
   (0x2071, 0x2071), (0x207f, 0x207f), (0x2090, 0x209c), (0x2160, 0x217f), (0x24b6, 0x24e9),
   (0x2c7c, 0x2c7d), (0xa69c, 0xa69d), (0xa770, 0xa770), (0xa7f2, 0xa7f4), (0xa7f8, 0xa7f9),
   (0xab5c, 0xab5f), (0xab69, 0xab69), (0x10780, 0x10780), (0x10783, 0x10785), (0x10787, 0x107b0),
   (0x107b2, 0x107ba), (0x1e030, 0x1e06d), (0x1f130, 0x1f149), (0x1f150, 0x1f169),
   (0x1f170, 0x1f189)]

def isCased (c : Char) : Bool :=
  category c ∈ [Category.Lu, .Ll, .Lt] || inRanges otherCased c

def wordPunctuation : List (Nat × Nat) :=
  [(0x27, 0x27), (0x2e, 0x2e), (0x3a, 0x3a), (0xb7, 0xb7), (0x387, 0x387), (0x55f, 0x55f),
   (0x5f4, 0x5f4), (0x2018, 0x2019), (0x2024, 0x2024), (0x2027, 0x2027), (0xfe13, 0xfe13),
   (0xfe52, 0xfe52), (0xfe55, 0xfe55), (0xff07, 0xff07), (0xff0e, 0xff0e), (0xff1a, 0xff1a)]

def isCaseIgnorable (c : Char) : Bool :=
  category c ∈ [Category.Mn, .Me, .Cf, .Lm, .Sk] || inRanges wordPunctuation c

def casedNext (cs : List Char) : Bool :=
  match cs.dropWhile isCaseIgnorable with
  | c :: _ => isCased c
  | [] => false

/-- Lower case from left to right, with the characters already passed in reverse. A capital sigma
that ends a word becomes the final one, and a dotted capital I keeps its dot. -/
def lowerFrom : List Char → List Char → List Char
  | _, [] => []
  | before, c :: rest =>
    let lower :=
      if c = '\u03a3' then
        if casedNext before && !casedNext rest then ['\u03c2'] else ['\u03c3']
      else if c = '\u0130' then ['i', '\u0307']
      else [mapBy lowerRuns c]
    lower ++ lowerFrom (c :: before) rest

def lowercase (s : String) : String := String.ofList (lowerFrom [] s.toList)

end Switchboard.Unicode
