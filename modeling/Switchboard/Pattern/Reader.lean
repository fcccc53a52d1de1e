import Switchboard.Pattern.Basic

namespace Switchboard.Pattern

structure Flags where
  caseless : Bool
  multiLine : Bool
  dotAll : Bool
  swapGreed : Bool
  unicode : Bool
  crlf : Bool
  spaced : Bool

namespace Flags

def start : Flags := ⟨false, false, false, false, true, false, false⟩

def set? (f : Flags) (c : Char) (on : Bool) : Option Flags :=
  match c with
  | 'i' => some { f with caseless := on }
  | 'm' => some { f with multiLine := on }
  | 's' => some { f with dotAll := on }
  | 'U' => some { f with swapGreed := on }
  | 'u' => some { f with unicode := on }
  | 'R' => some { f with crlf := on }
  | 'x' => some { f with spaced := on }
  | _ => none

def fold (f : Flags) (s : CharSet) : CharSet := if f.caseless then .folded s else s

/-- A set that is given in negated or plain form; without Unicode no set may reach past ASCII. -/
def negate? (f : Flags) (negated : Bool) (s : CharSet) : Option CharSet :=
  if negated then if f.unicode then some (.compl s) else none else some s

def digit (f : Flags) : CharSet := if f.unicode then .digit else .asciiDigit

def blank (f : Flags) : CharSet := if f.unicode then .blank else .asciiBlank

def word (f : Flags) : CharSet := if f.unicode then .word else .asciiWord

end Flags

namespace Reader

def skip (f : Flags) : Nat → List Char → List Char
  | 0, cs => cs
  | fuel + 1, cs =>
    if f.spaced then
      match cs with
      | '#' :: rest => skip f fuel ((rest.dropWhile (· != '\n')).drop 1)
      | c :: rest => if Unicode.isBlank c then skip f fuel rest else cs
      | [] => []
    else cs

def skipped (f : Flags) (cs : List Char) : List Char := skip f (cs.length + 1) cs

def hex? (c : Char) : Option Nat :=
  if c.isDigit then some (c.toNat - 48)
  else if 'a' ≤ c ∧ c ≤ 'f' then some (c.toNat - 87)
  else if 'A' ≤ c ∧ c ≤ 'F' then some (c.toNat - 55)
  else none

def scalar? (n : Nat) : Option Char :=
  if n < 0xd800 ∨ (0xdfff < n ∧ n < 0x110000) then some (Char.ofNat n) else none

def hexNumber (ds : List Char) : Option Nat :=
  if ds.isEmpty then none
  else ds.foldlM (fun n c => (hex? c).map (n * 16 + ·)) 0

def codePoint (width : Nat) (cs : List Char) : Option (Char × List Char) := do
  match cs with
  | '\x7b' :: rest =>
    let ds := rest.takeWhile (· != '\x7d')
    let after ← (rest.drop ds.length).tail?
    some (← scalar? (← hexNumber ds), after)
  | _ =>
    if cs.length < width then none
    some (← scalar? (← hexNumber (cs.take width)), cs.drop width)

def className (f : Flags) (negated : Bool) (cs : List Char) : Option (CharSet × List Char) := do
  if !f.unicode then none
  let (name, rest) ← match cs with
    | '\x7b' :: rest =>
      let name := rest.takeWhile (· != '\x7d')
      (rest.drop name.length).tail?.map fun after => (name, after)
    | c :: rest => if c == '\\' then none else some ([c], rest)
    | [] => none
  let (flipped, name) := match name with
    | '^' :: more => if cs.head? = some '\x7b' then (true, more) else (false, name)
    | _ => (false, name)
  let before := name.takeWhile fun c => c != '=' && c != ':'
  let (unequal, set) ←
    if before.length = name.length then (CharSet.named? name).map ((false, ·))
    else
      match before.reverse, name.drop before.length with
      | '!' :: front, '=' :: value => (CharSet.valued? front.reverse value).map ((true, ·))
      | _, _ :: value => (CharSet.valued? before value).map ((false, ·))
      | _, [] => none
  let set := f.fold set
  some (if (negated != flipped) != unequal then .compl set else set, rest)

inductive Escape where
  | char (c : Char)
  | set (s : CharSet)
  | look (l : Look)

def isMeta (c : Char) : Bool := "\\.+*?()|[]\x7b\x7d^$#&-~".toList.contains c

def isEscapable (c : Char) : Bool :=
  isMeta c || (c.toNat < 128 && !c.isAlphanum && c != '<' && c != '>')

def boundaryName (f : Flags) (cs : List Char) : Option (Look × List Char) :=
  match cs with
  | '\x7b' :: rest =>
    let name := rest.takeWhile (· != '\x7d')
    match rest.drop name.length with
    | _ :: after =>
      match String.ofList name with
      | "start" => some (.wordStart f.word, after)
      | "end" => some (.wordEnd f.word, after)
      | "start-half" => some (.wordStartHalf f.word, after)
      | "end-half" => some (.wordEndHalf f.word, after)
      | _ => none
    | [] => none
  | _ => none

def namesBoundary (cs : List Char) : Bool :=
  match cs with
  | '\x7b' :: c :: _ => c.isAlpha || c == '-'
  | _ => false

def escape (f : Flags) (cs : List Char) : Option (Escape × List Char) :=
  let ofChar (c : Char) (rest : List Char) : Option (Escape × List Char) := some (.char c, rest)
  let ofSet (negated : Bool) (s : CharSet) (rest : List Char) : Option (Escape × List Char) :=
    (f.negate? negated s).map fun s => (.set s, rest)
  match cs with
  | [] => none
  | 'x' :: rest => (codePoint 2 rest).bind fun (c, r) => ofChar c r
  | 'u' :: rest => (codePoint 4 rest).bind fun (c, r) => ofChar c r
  | 'U' :: rest => (codePoint 8 rest).bind fun (c, r) => ofChar c r
  | 'p' :: rest => (className f false rest).map fun (s, r) => (.set s, r)
  | 'P' :: rest => (className f true rest).map fun (s, r) => (.set s, r)
  | 'd' :: rest => ofSet false f.digit rest
  | 'D' :: rest => ofSet true f.digit rest
  | 's' :: rest => ofSet false f.blank rest
  | 'S' :: rest => ofSet true f.blank rest
  | 'w' :: rest => ofSet false f.word rest
  | 'W' :: rest => ofSet true f.word rest
  | 'a' :: rest => ofChar '\x07' rest
  | 'f' :: rest => ofChar '\x0c' rest
  | 't' :: rest => ofChar '\t' rest
  | 'n' :: rest => ofChar '\n' rest
  | 'r' :: rest => ofChar '\r' rest
  | 'v' :: rest => ofChar '\x0b' rest
  | 'A' :: rest => some (.look .textStart, rest)
  | 'z' :: rest => some (.look .textEnd, rest)
  | 'B' :: rest => some (.look (.noBoundary f.word), rest)
  | 'b' :: rest =>
    if namesBoundary rest then (boundaryName f rest).map fun (l, r) => (.look l, r)
    else some (.look (.boundary f.word), rest)
  | '<' :: rest => some (.look (.wordStart f.word), rest)
  | '>' :: rest => some (.look (.wordEnd f.word), rest)
  | c :: rest => if isEscapable c then ofChar c rest else none

def asciiClass (cs : List Char) : Option (CharSet × List Char) := do
  match cs with
  | ':' :: rest =>
    let (negated, rest) := match rest with
      | '^' :: r => (true, r)
      | r => (false, r)
    let name := rest.takeWhile (· != ':')
    match rest.drop name.length with
    | ':' :: ']' :: after =>
      let set ← CharSet.ascii? (String.ofList name)
      some (if negated then .compl set else set, after)
    | _ => none
  | _ => none

def classItem (f : Flags) (cs : List Char) : Option (Escape × List Char) :=
  match cs with
  | '\\' :: rest => escape f rest
  | c :: rest => some (.char c, rest)
  | [] => none

inductive SetOp where
  | inter | diff | symm

def SetOp.apply (f : Flags) (op : SetOp) (a b : CharSet) : CharSet :=
  match op with
  | inter => .inter (f.fold a) (f.fold b)
  | diff => .diff (f.fold a) (f.fold b)
  | symm => .symmDiff (f.fold a) (f.fold b)

def combine (f : Flags) (left : Option (CharSet × SetOp)) (right : CharSet) : CharSet :=
  match left with
  | none => right
  | some (l, op) => op.apply f l right

def classRange (f : Flags) (cs : List Char) : Option (CharSet × List Char) := do
  let (first, rest) ← classItem f cs
  let single : Option CharSet := match first with
    | .char c => some (.single c)
    | .set s => some s
    | .look _ => none
  let rest := skipped f rest
  match rest with
  | [] => none
  | '-' :: more =>
    let next := (skipped f more).head?
    if next = some ']' ∨ next = some '-' then some (← single, rest)
    else
      let (last, after) ← classItem f (skipped f more)
      match first, last with
      | .char a, .char b => if a ≤ b then some (.range a b, after) else none
      | _, _ => none
  | _ => some (← single, rest)

def leadingHyphens (f : Flags) : Nat → CharSet → List Char → CharSet × List Char
  | 0, set, cs => (set, cs)
  | fuel + 1, set, cs =>
    match cs with
    | '-' :: rest => leadingHyphens f fuel (.union set (.single '-')) (skipped f rest)
    | _ => (set, cs)

/-- The start of a class after its bracket: whether it is negated, and the members that count as
literal only there. -/
def classStart (f : Flags) (cs : List Char) : Bool × CharSet × List Char :=
  let cs := skipped f cs
  let (negated, cs) := match cs with
    | '^' :: rest => (true, skipped f rest)
    | cs => (false, cs)
  let (set, after) := leadingHyphens f (cs.length + 1) .none cs
  match after with
  | ']' :: rest =>
    if after.length = cs.length then (negated, .single ']', skipped f rest)
    else (negated, set, after)
  | _ => (negated, set, after)

/-- The rest of a class: `left` waits for its second operand, `set` holds the members so far. -/
def classBody (f : Flags) :
    Nat → Option (CharSet × SetOp) → CharSet → List Char → Option (CharSet × List Char)
  | 0, _, _, _ => none
  | fuel + 1, left, set, cs =>
    match skipped f cs with
    | [] => none
    | ']' :: rest => some (combine f left set, rest)
    | '[' :: rest =>
      match asciiClass rest with
      | some (inner, rest) => classBody f fuel left (.union set inner) rest
      | none =>
        let (negated, inner, rest) := classStart f rest
        match classBody f fuel none inner rest with
        | none => none
        | some (inner, rest) =>
          let inner := f.fold inner
          let inner := if negated then .compl inner else inner
          classBody f fuel left (.union set inner) rest
    | '&' :: '&' :: rest => classBody f fuel (some (combine f left set, .inter)) .none rest
    | '-' :: '-' :: rest => classBody f fuel (some (combine f left set, .diff)) .none rest
    | '~' :: '~' :: rest => classBody f fuel (some (combine f left set, .symm)) .none rest
    | cs =>
      match classRange f cs with
      | none => none
      | some (item, rest) => classBody f fuel left (.union set item) rest

def bracketed (f : Flags) (cs : List Char) : Option (CharSet × List Char) := do
  let (negated, set, rest) := classStart f cs
  let (set, rest) ← classBody f (cs.length + 1) none set rest
  some (← f.negate? negated (f.fold set), rest)

def count (cs : List Char) : Option (Nat × List Char) :=
  let cs := cs.dropWhile Unicode.isBlank
  let ds := cs.takeWhile Char.isDigit
  let n := ds.foldl (fun n c => n * 10 + (c.toNat - 48)) 0
  if ds.isEmpty ∨ Nat.pow 2 32 ≤ n then none
  else some (n, (cs.drop ds.length).dropWhile Unicode.isBlank)

def bounds (f : Flags) (cs : List Char) : Option (Nat × Option Nat × List Char) := do
  let (low, rest) ← count (skipped f cs)
  match rest with
  | '\x7d' :: after => some (low, some low, after)
  | ',' :: more =>
    match skipped f more with
    | '\x7d' :: after => some (low, none, after)
    | more =>
      let (high, rest) ← count more
      match rest with
      | '\x7d' :: after => if low ≤ high then some (low, some high, after) else none
      | _ => none
  | _ => none

/-- A mark after a repetition that makes it prefer fewer rounds; it does not change what matches. -/
def dropLazyMark (f : Flags) (cs : List Char) : List Char :=
  match skipped f cs with
  | '?' :: rest => rest
  | _ => cs

def flagList : Nat → Flags → Bool → List Char → List Char → Option (Flags × Char × List Char)
  | 0, _, _, _, _ => none
  | fuel + 1, f, on, seen, cs =>
    match cs with
    | [] => none
    | '-' :: rest => if on then flagList fuel f false ('-' :: seen) rest else none
    | c :: rest =>
      if c == ')' ∨ c == ':' then
        if seen.head? = some '-' ∨ (c == ')' ∧ seen.isEmpty) then none else some (f, c, rest)
      else if seen.contains c then none
      else (f.set? c on).bind fun f => flagList fuel f on (c :: seen) rest

def isNameChar (first : Bool) (c : Char) : Bool :=
  let letter := CharSet.contains (.category [.Lu, .Ll, .Lt, .Lm, .Lo, .Nl]) c
  let number := CharSet.contains (.category [.Nd, .Nl, .No]) c
  c == '_' || letter || (!first && (c == '.' || c == '[' || c == ']' || number))

def groupName (cs : List Char) : Option (List Char × List Char) :=
  let name := cs.takeWhile (· != '>')
  match name, cs.drop name.length with
  | c :: more, _ :: rest =>
    if isNameChar true c && more.all (isNameChar false) then some (name, rest) else none
  | _, _ => none

inductive Opening where
  | plain
  | named (name : List Char)
  | flagged (f : Flags)
  | setting (f : Flags)

def opening (f : Flags) (cs : List Char) : Option (Opening × List Char) :=
  match skipped f cs with
  | '?' :: '=' :: _ => none
  | '?' :: '!' :: _ => none
  | '?' :: '<' :: '=' :: _ => none
  | '?' :: '<' :: '!' :: _ => none
  | '?' :: 'P' :: '<' :: rest => (groupName rest).map fun (n, r) => (.named n, r)
  | '?' :: '<' :: rest => (groupName rest).map fun (n, r) => (.named n, r)
  | '?' :: rest =>
    (flagList (rest.length + 1) f true [] rest).map fun (f, c, r) =>
      (if c == ')' then .setting f else .flagged f, r)
  | _ => some (.plain, cs)

abbrev Parts := List (Option Pattern)

def sequence (parts : Parts) : Pattern :=
  parts.foldl (fun acc part => match part with
    | none => acc
    | some p => .seq p acc) .empty

def alternatives (done : List Pattern) (parts : Parts) : Pattern :=
  done.foldl (fun acc p => .alt p acc) (sequence parts)

def repeatLast (parts : Parts) (low : Nat) (high : Option Nat) : Option Parts :=
  match parts with
  | some p :: rest => some (some (.times p low high) :: rest)
  | _ => none

def dot (f : Flags) : CharSet :=
  if f.dotAll then .any
  else if f.crlf then .compl (.union (.single '\r') (.single '\n'))
  else .compl (.single '\n')

def ofEscape (f : Flags) : Escape → Pattern
  | .char c => .char (f.fold (.single c))
  | .set s => .char s
  | .look l => .look l

def body :
    Nat → Flags → List (List Char) → List Pattern → Parts → List Char →
      Option (Pattern × List (List Char) × List Char)
  | 0, _, _, _, _, _ => none
  | fuel + 1, f, names, done, parts, cs =>
    match skipped f cs with
    | [] => some (alternatives done parts, names, [])
    | ')' :: rest => some (alternatives done parts, names, ')' :: rest)
    | '|' :: rest => body fuel f names (sequence parts :: done) [] rest
    | '(' :: rest =>
      match opening f rest with
      | none => none
      | some (.setting g, rest) => body fuel g names done (none :: parts) rest
      | some (kind, rest) =>
        let inner := match kind with
          | .flagged g => g
          | _ => f
        let names? := match kind with
          | .named n => if names.contains n then none else some (n :: names)
          | _ => some names
        match names? with
        | none => none
        | some names =>
          match body fuel inner names [] [] rest with
          | some (p, names, ')' :: rest) => body fuel f names done (some p :: parts) rest
          | _ => none
    | '[' :: rest =>
      match bracketed f rest with
      | none => none
      | some (set, rest) => body fuel f names done (some (.char set) :: parts) rest
    | '*' :: rest =>
      (repeatLast parts 0 none).bind fun parts => body fuel f names done parts (dropLazyMark f rest)
    | '+' :: rest =>
      (repeatLast parts 1 none).bind fun parts => body fuel f names done parts (dropLazyMark f rest)
    | '?' :: rest =>
      (repeatLast parts 0 (some 1)).bind fun parts =>
        body fuel f names done parts (dropLazyMark f rest)
    | '\x7b' :: rest =>
      match bounds f rest with
      | none => none
      | some (low, high, rest) =>
        (repeatLast parts low high).bind fun parts =>
          body fuel f names done parts (dropLazyMark f rest)
    | '\\' :: rest =>
      match escape f rest with
      | none => none
      | some (e, rest) => body fuel f names done (some (ofEscape f e) :: parts) rest
    | '.' :: rest =>
      if f.unicode then body fuel f names done (some (.char (dot f)) :: parts) rest else none
    | '^' :: rest =>
      let l := if f.multiLine then Look.lineStart f.crlf else .textStart
      body fuel f names done (some (.look l) :: parts) rest
    | '$' :: rest =>
      let l := if f.multiLine then Look.lineEnd f.crlf else .textEnd
      body fuel f names done (some (.look l) :: parts) rest
    | c :: rest => body fuel f names done (some (.char (f.fold (.single c))) :: parts) rest

end Reader

def sizeLimit : Nat := 200000

/-- The pattern that a whole text stands for, or why there is none. -/
def ofText (s : String) : Except String Pattern :=
  let cs := s.toList
  match Reader.body (cs.length + 1) .start [] [] [] cs with
  | some (p, _, []) =>
    if p.size ≤ sizeLimit then .ok p
    else .error "Compiled regex exceeds size limit of 10485760 bytes."
  | _ => .error "regex parse error"

def ofText? (s : String) : Option Pattern := (ofText s).toOption

end Switchboard.Pattern
