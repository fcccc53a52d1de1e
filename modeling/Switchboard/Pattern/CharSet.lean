import Switchboard.Unicode.Case

namespace Switchboard

inductive CharSet where
  | range (first last : Char)
  | category (categories : List Unicode.Category)
  | blank
  | cased (lower : Bool)
  | none
  | union (a b : CharSet)
  | inter (a b : CharSet)
  | diff (a b : CharSet)
  | compl (a : CharSet)
  | folded (a : CharSet)

namespace CharSet

def contains : CharSet → Char → Bool
  | range first last, c => first ≤ c && c ≤ last
  | category categories, c => Unicode.category c ∈ categories
  | blank, c => Unicode.isBlank c
  | cased lower, c =>
    if lower then
      Unicode.category c == .Ll || (Unicode.inRanges Unicode.otherCased c && Unicode.fold c == c)
    else
      Unicode.category c == .Lu || (Unicode.inRanges Unicode.otherCased c && Unicode.fold c != c)
  | none, _ => false
  | union a b, c => a.contains c || b.contains c
  | inter a b, c => a.contains c && b.contains c
  | diff a b, c => a.contains c && !b.contains c
  | compl a, c => !a.contains c
  | folded a, c => a.contains c || (Unicode.caseVariants c).any a.contains

def single (c : Char) : CharSet := range c c

def any : CharSet := compl none

def ofChars (cs : List Char) : CharSet := cs.foldr (fun c s => union (single c) s) none

def ofRanges (ranges : List (Nat × Nat)) : CharSet :=
  ranges.foldr (fun r s => union (range (Char.ofNat r.1) (Char.ofNat r.2)) s) none

def symmDiff (a b : CharSet) : CharSet := union (diff a b) (diff b a)

def asciiDigit : CharSet := range '0' '9'

def asciiLetter : CharSet := union (range 'a' 'z') (range 'A' 'Z')

def asciiWord : CharSet := union asciiLetter (union asciiDigit (single '_'))

def asciiBlank : CharSet := ofChars ['\t', '\n', '\x0b', '\x0c', '\r', ' ']

def digit : CharSet := category [.Nd]

def word : CharSet :=
  union (category [.Lu, .Ll, .Lt, .Lm, .Lo, .Nl, .Mn, .Mc, .Me, .Nd, .Pc])
    (ofRanges [(0x24b6, 0x24e9), (0x1f130, 0x1f149), (0x1f150, 0x1f169), (0x1f170, 0x1f189),
      (0x200c, 0x200d)])

def ascii? (name : String) : Option CharSet :=
  match name with
  | "alnum" => some (union asciiLetter asciiDigit)
  | "alpha" => some asciiLetter
  | "ascii" => some (range '\x00' '\x7f')
  | "blank" => some (ofChars ['\t', ' '])
  | "cntrl" => some (union (range '\x00' '\x1f') (single '\x7f'))
  | "digit" => some asciiDigit
  | "graph" => some (range '!' '~')
  | "lower" => some (range 'a' 'z')
  | "print" => some (range ' ' '~')
  | "punct" =>
    some (union (union (range '!' '/') (range ':' '@'))
      (union (range '[' '\x60') (range '\x7b' '~')))
  | "space" => some asciiBlank
  | "upper" => some (range 'A' 'Z')
  | "word" => some asciiWord
  | "xdigit" => some (union asciiDigit (union (range 'a' 'f') (range 'A' 'F')))
  | _ => Option.none

def script? (name : String) : Option CharSet :=
  match name with
  | "latin" | "latn" =>
    some (inter (category [.Lu, .Ll, .Lt, .Lm, .Lo, .Nl])
      (ofRanges [(0x41, 0x5a), (0x61, 0x7a), (0xaa, 0xaa), (0xba, 0xba), (0xc0, 0x2b8),
        (0x2e0, 0x2e4), (0x1d00, 0x1d25), (0x1d2c, 0x1d5c), (0x1d62, 0x1d65), (0x1d6b, 0x1d77),
        (0x1d79, 0x1dbe), (0x1e00, 0x1eff), (0x2071, 0x2071), (0x207f, 0x207f), (0x2090, 0x209c),
        (0x212a, 0x212b), (0x2132, 0x2132), (0x214e, 0x214e), (0x2160, 0x2188), (0x2c60, 0x2c7f),
        (0xa722, 0xa787), (0xa78b, 0xa7ff), (0xab30, 0xab64), (0xfb00, 0xfb06), (0xff21, 0xff3a),
        (0xff41, 0xff5a)]))
  | "greek" | "grek" =>
    some (ofRanges [(0x370, 0x373), (0x375, 0x377), (0x37a, 0x37d), (0x37f, 0x37f), (0x384, 0x384),
      (0x386, 0x386), (0x388, 0x38a), (0x38c, 0x38c), (0x38e, 0x3a1), (0x3a3, 0x3e1),
      (0x3f0, 0x3ff), (0x1d26, 0x1d2a), (0x1d5d, 0x1d61), (0x1d66, 0x1d6a), (0x1dbf, 0x1dbf),
      (0x1f00, 0x1f15), (0x1f18, 0x1f1d), (0x1f20, 0x1f45), (0x1f48, 0x1f4d), (0x1f50, 0x1f57),
      (0x1f59, 0x1f59), (0x1f5b, 0x1f5b), (0x1f5d, 0x1f5d), (0x1f5f, 0x1f7d), (0x1f80, 0x1fb4),
      (0x1fb6, 0x1fc4), (0x1fc6, 0x1fd3), (0x1fd6, 0x1fdb), (0x1fdd, 0x1fef), (0x1ff2, 0x1ff4),
      (0x1ff6, 0x1ffe), (0x2126, 0x2126), (0xab65, 0xab65), (0x10140, 0x1018e), (0x101a0, 0x101a0),
      (0x1d200, 0x1d245)])
  | "cyrillic" | "cyrl" =>
    some (ofRanges [(0x400, 0x484), (0x487, 0x52f), (0x1c80, 0x1c8a), (0x1d2b, 0x1d2b),
      (0x1d78, 0x1d78), (0x2de0, 0x2dff), (0xa640, 0xa69f), (0xfe2e, 0xfe2f), (0x1e030, 0x1e06d),
      (0x1e08f, 0x1e08f)])
  | "hebrew" | "hebr" =>
    some (ofRanges [(0x591, 0x5c7), (0x5d0, 0x5ea), (0x5ef, 0x5f4), (0xfb1d, 0xfb36),
      (0xfb38, 0xfb3c), (0xfb3e, 0xfb3e), (0xfb40, 0xfb41), (0xfb43, 0xfb44), (0xfb46, 0xfb4f)])
  | "hiragana" | "hira" =>
    some (ofRanges [(0x3041, 0x3096), (0x309d, 0x309f), (0x1b001, 0x1b11f), (0x1b132, 0x1b132),
      (0x1b150, 0x1b152), (0x1f200, 0x1f200)])
  | "katakana" | "kana" =>
    some (ofRanges [(0x30a1, 0x30fa), (0x30fd, 0x30ff), (0x31f0, 0x31ff), (0x32d0, 0x32fe),
      (0x3300, 0x3357), (0xff66, 0xff6f), (0xff71, 0xff9d), (0x1aff0, 0x1aff3), (0x1aff5, 0x1affb),
      (0x1affd, 0x1affe), (0x1b000, 0x1b000), (0x1b120, 0x1b122), (0x1b155, 0x1b155),
      (0x1b164, 0x1b167)])
  | "han" | "hani" =>
    some (ofRanges [(0x2e80, 0x2e99), (0x2e9b, 0x2ef3), (0x2f00, 0x2fd5), (0x3005, 0x3005),
      (0x3007, 0x3007), (0x3021, 0x3029), (0x3038, 0x303b), (0x3400, 0x4dbf), (0x4e00, 0x9fff),
      (0xf900, 0xfa6d), (0xfa70, 0xfad9), (0x16fe2, 0x16fe3), (0x16ff0, 0x16ff1),
      (0x20000, 0x2a6df), (0x2a700, 0x2b739), (0x2b740, 0x2b81d), (0x2b820, 0x2cea1),
      (0x2ceb0, 0x2ebe0), (0x2ebf0, 0x2ee5d), (0x2f800, 0x2fa1d), (0x30000, 0x3134a),
      (0x31350, 0x323af)])
  | "hangul" | "hang" =>
    some (ofRanges [(0x1100, 0x11ff), (0x302e, 0x302f), (0x3131, 0x318e), (0x3200, 0x321e),
      (0x3260, 0x327e), (0xa960, 0xa97c), (0xac00, 0xd7a3), (0xd7b0, 0xd7c6), (0xd7cb, 0xd7fb),
      (0xffa0, 0xffbe), (0xffc2, 0xffc7), (0xffca, 0xffcf), (0xffd2, 0xffd7), (0xffda, 0xffdc)])
  | "arabic" | "arab" =>
    some (ofRanges [(0x600, 0x604), (0x606, 0x60b), (0x60d, 0x61a), (0x61c, 0x61e), (0x620, 0x63f),
      (0x641, 0x64a), (0x656, 0x66f), (0x671, 0x6dc), (0x6de, 0x6ff), (0x750, 0x77f),
      (0x870, 0x88e), (0x890, 0x891), (0x898, 0x8e1), (0x8e3, 0x8ff), (0xfb50, 0xfbc2),
      (0xfbd3, 0xfd3d), (0xfd40, 0xfd8f), (0xfd92, 0xfdc7), (0xfdcf, 0xfdcf), (0xfdf0, 0xfdff),
      (0xfe70, 0xfe74), (0xfe76, 0xfefc)])
  | "thai" => some (ofRanges [(0xe01, 0xe3a), (0xe40, 0xe5b)])
  | "devanagari" | "deva" =>
    some (ofRanges [(0x900, 0x950), (0x955, 0x963), (0x966, 0x97f), (0xa8e0, 0xa8ff),
      (0x11b00, 0x11b09)])
  | "armenian" | "armn" =>
    some (ofRanges [(0x531, 0x556), (0x559, 0x58a), (0x58d, 0x58f), (0xfb13, 0xfb17)])
  | "georgian" | "geor" =>
    some (ofRanges [(0x10a0, 0x10c5), (0x10c7, 0x10c7), (0x10cd, 0x10cd), (0x10d0, 0x10fa),
      (0x10fc, 0x10ff), (0x1c90, 0x1cba), (0x1cbd, 0x1cbf), (0x2d00, 0x2d25), (0x2d27, 0x2d27),
      (0x2d2d, 0x2d2d)])
  | _ => Option.none

def generalCategory? (name : String) : Option CharSet :=
  match name with
  | "lu" | "uppercaseletter" => some (category [.Lu])
  | "ll" | "lowercaseletter" => some (category [.Ll])
  | "lt" | "titlecaseletter" => some (category [.Lt])
  | "lc" | "casedletter" => some (category [.Lu, .Ll, .Lt])
  | "lm" | "modifierletter" => some (category [.Lm])
  | "lo" | "otherletter" => some (category [.Lo])
  | "l" | "letter" => some (category [.Lu, .Ll, .Lt, .Lm, .Lo])
  | "mn" | "nonspacingmark" => some (category [.Mn])
  | "mc" | "spacingmark" => some (category [.Mc])
  | "me" | "enclosingmark" => some (category [.Me])
  | "m" | "mark" | "combiningmark" => some (category [.Mn, .Mc, .Me])
  | "nd" | "decimalnumber" | "digit" => some (category [.Nd])
  | "nl" | "letternumber" => some (category [.Nl])
  | "no" | "othernumber" => some (category [.No])
  | "n" | "number" => some (category [.Nd, .Nl, .No])
  | "pc" | "connectorpunctuation" => some (category [.Pc])
  | "pd" | "dashpunctuation" => some (category [.Pd])
  | "ps" | "openpunctuation" => some (category [.Ps])
  | "pe" | "closepunctuation" => some (category [.Pe])
  | "pi" | "initialpunctuation" => some (category [.Pi])
  | "pf" | "finalpunctuation" => some (category [.Pf])
  | "po" | "otherpunctuation" => some (category [.Po])
  | "p" | "punctuation" | "punct" => some (category [.Pc, .Pd, .Ps, .Pe, .Pi, .Pf, .Po])
  | "sm" | "mathsymbol" => some (category [.Sm])
  | "sc" | "currencysymbol" => some (category [.Sc])
  | "sk" | "modifiersymbol" => some (category [.Sk])
  | "so" | "othersymbol" => some (category [.So])
  | "s" | "symbol" => some (category [.Sm, .Sc, .Sk, .So])
  | "zs" | "spaceseparator" => some (category [.Zs])
  | "zl" | "lineseparator" => some (category [.Zl])
  | "zp" | "paragraphseparator" => some (category [.Zp])
  | "z" | "separator" => some (category [.Zs, .Zl, .Zp])
  | "cc" | "control" | "cntrl" => some (category [.Cc])
  | "cf" | "format" => some (category [.Cf])
  | "cs" | "surrogate" => some (category [.Cs])
  | "co" | "privateuse" => some (category [.Co])
  | "cn" | "unassigned" => some (category [.Cn])
  | "c" | "other" => some (category [.Cc, .Cf, .Cs, .Co, .Cn])
  | "any" => some any
  | "assigned" => some (compl (category [.Cn]))
  | "ascii" => some (range '\x00' '\x7f')
  | _ => Option.none

def property? (name : String) : Option CharSet :=
  match name with
  | "alphabetic" | "alpha" =>
    some (union (category [.Lu, .Ll, .Lt, .Lm, .Lo, .Nl])
      (ofRanges [(0x345, 0x345), (0x24b6, 0x24e9), (0x1f130, 0x1f149), (0x1f150, 0x1f169),
        (0x1f170, 0x1f189)]))
  | "whitespace" | "wspace" | "space" => some blank
  | "lowercase" | "lower" => some (cased true)
  | "uppercase" | "upper" => some (cased false)
  | "joincontrol" | "joinc" => some (range '\u200c' '\u200d')
  | "asciihexdigit" | "ahex" => some (union asciiDigit (union (range 'a' 'f') (range 'A' 'F')))
  | "hexdigit" | "hex" =>
    some (ofRanges [(0x30, 0x39), (0x41, 0x46), (0x61, 0x66), (0xff10, 0xff19), (0xff21, 0xff26),
      (0xff41, 0xff46)])
  | _ => Option.none

/-- Names are compared without case, blanks, hyphens and low lines, and a leading `is` is
ignored. -/
def plainName (name : List Char) : String :=
  let isKept (c : Char) : Bool := c.toNat < 128 && !(c == ' ' || c == '-' || c == '_')
  let cs := (name.filter isKept).map Char.toLower
  match cs with
  | 'i' :: 's' :: rest =>
    if rest.isEmpty || cs == ['i', 's', 'c'] then String.ofList cs else String.ofList rest
  | _ => String.ofList cs

def named? (name : List Char) : Option CharSet :=
  let plain := plainName name
  (generalCategory? plain).or ((script? plain).or (property? plain))

def valued? (property value : List Char) : Option CharSet :=
  let plain := plainName value
  match plainName property with
  | "generalcategory" | "gc" => generalCategory? plain
  | "script" | "sc" | "scriptextensions" | "scx" => script? plain
  | _ => Option.none

end CharSet

end Switchboard
