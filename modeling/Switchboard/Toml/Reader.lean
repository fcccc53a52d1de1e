import Switchboard.JsonText

namespace Switchboard.Toml

abbrev Key := List String

inductive Value where
  | string (s : String)
  | integer (n : Int)
  | boolean (b : Bool)
  | array (items : List Value)
  | inlineTable (pairs : List (Key × Value))
deriving Inhabited

inductive Statement where
  | table (key : Key)
  | arrayTable (key : Key)
  | pair (key : Key) (value : Value)

namespace Reader

def isBlank (c : Char) : Bool := c == ' ' || c == '\t'

def skipBlanks (cs : List Char) : List Char := cs.dropWhile isBlank

def isPlain (c : Char) : Bool := c == '\t' || (32 ≤ c.toNat && c.toNat != 127)

def lineEnd (cs : List Char) : Option (List Char) :=
  match cs with
  | '\n' :: rest => some rest
  | '\r' :: '\n' :: rest => some rest
  | _ => none

def skipComment (cs : List Char) : List Char :=
  match cs with
  | '#' :: rest => rest.dropWhile isPlain
  | _ => cs

def skipLines : Nat → List Char → List Char
  | 0, cs => cs
  | fuel + 1, cs =>
    let cs := skipComment (skipBlanks cs)
    match lineEnd cs with
    | some rest => skipLines fuel rest
    | none => cs

def statementEnd (cs : List Char) : Option (List Char) :=
  match skipComment (skipBlanks cs) with
  | [] => some []
  | cs => lineEnd cs

def hex? (c : Char) : Option Nat :=
  if c.isDigit then some (c.toNat - 48)
  else if 'a' ≤ c ∧ c ≤ 'f' then some (c.toNat - 87)
  else if 'A' ≤ c ∧ c ≤ 'F' then some (c.toNat - 55)
  else none

def codePoint (width : Nat) (cs : List Char) : Option (Char × List Char) := do
  if cs.length < width then none
  let n ← (cs.take width).foldlM (fun n c => (hex? c).map (n * 16 + ·)) 0
  if n < 0xd800 ∨ (0xdfff < n ∧ n < 0x110000) then some (Char.ofNat n, cs.drop width) else none

def escaped (cs : List Char) : Option (Char × List Char) :=
  match cs with
  | 'b' :: rest => some ('\x08', rest)
  | 't' :: rest => some ('\t', rest)
  | 'n' :: rest => some ('\n', rest)
  | 'f' :: rest => some ('\x0c', rest)
  | 'r' :: rest => some ('\r', rest)
  | '"' :: rest => some ('"', rest)
  | '\\' :: rest => some ('\\', rest)
  | 'u' :: rest => codePoint 4 rest
  | 'U' :: rest => codePoint 8 rest
  | _ => none

def basicString : Nat → List Char → List Char → Option (String × List Char)
  | 0, _, _ => none
  | fuel + 1, acc, cs =>
    match cs with
    | '"' :: rest => some (String.ofList acc.reverse, rest)
    | '\\' :: rest => (escaped rest).bind fun (c, rest) => basicString fuel (c :: acc) rest
    | c :: rest => if isPlain c then basicString fuel (c :: acc) rest else none
    | [] => none

def literalString (cs : List Char) : Option (String × List Char) :=
  let body := cs.takeWhile fun c => isPlain c && c != '\''
  match cs.drop body.length with
  | '\'' :: rest => some (String.ofList body, rest)
  | _ => none

def foldedLine (cs : List Char) : Option (List Char) := do
  let rest ← lineEnd (skipBlanks cs)
  let more := rest.dropWhile fun c => isBlank c || c == '\n' || c == '\r'
  let skipped := rest.take (rest.length - more.length)
  if (skipped.zip (skipped.drop 1 ++ ['x'])).any fun p => p.1 == '\r' && p.2 != '\n' then none
  else some more

/-- The rest of a string between three quotes `q`, of which up to two more may end its text;
escapes are read if `escapes`. -/
def longString (q : Char) (escapes : Bool) :
    Nat → List Char → List Char → Option (String × List Char)
  | 0, _, _ => none
  | fuel + 1, acc, cs =>
    let quotes := (cs.takeWhile (· == q)).length
    if 3 ≤ quotes then
      let kept := min (quotes - 3) 2
      some (String.ofList (List.replicate kept q ++ acc).reverse, cs.drop (kept + 3))
    else
      match cs with
      | [] => none
      | c :: rest =>
        if escapes && c == '\\' then
          match foldedLine rest with
          | some rest => longString q escapes fuel acc rest
          | none => (escaped rest).bind fun (c, rest) => longString q escapes fuel (c :: acc) rest
        else
          match lineEnd cs with
          | some rest => longString q escapes fuel ('\n' :: acc) rest
          | none => if isPlain c then longString q escapes fuel (c :: acc) rest else none

def dropFirstLineEnd (cs : List Char) : List Char := (lineEnd cs).getD cs

def isBare (c : Char) : Bool := c.isAlphanum || c == '_' || c == '-'

def keyPart (cs : List Char) : Option (String × List Char) :=
  match cs with
  | '"' :: rest => basicString (rest.length + 1) [] rest
  | '\'' :: rest => literalString rest
  | _ =>
    let part := cs.takeWhile isBare
    if part.isEmpty then none else some (String.ofList part, cs.drop part.length)

def key : Nat → List Char → Option (Key × List Char)
  | 0, _ => none
  | fuel + 1, cs => do
    let (part, rest) ← keyPart (skipBlanks cs)
    match skipBlanks rest with
    | '.' :: rest =>
      let (parts, rest) ← key fuel rest
      some (part :: parts, rest)
    | rest => some ([part], rest)

def keyOf (cs : List Char) : Option (Key × List Char) := key (cs.length + 1) cs

def digits (radix : Nat) (cs : List Char) : Option Nat :=
  let value? (c : Char) : Option Nat := (hex? c).filter (· < radix)
  let rec go : Bool → Nat → List Char → Option Nat
    | afterDigit, n, [] => if afterDigit then some n else none
    | afterDigit, n, '_' :: rest => if afterDigit then go false n rest else none
    | _, n, c :: rest => (value? c).bind fun d => go true (n * radix + d) rest
  go false 0 cs

def integer (word : List Char) : Option Int := do
  let n : Int ← match word with
    | '0' :: 'x' :: ds => (digits 16 ds).map Int.ofNat
    | '0' :: 'o' :: ds => (digits 8 ds).map Int.ofNat
    | '0' :: 'b' :: ds => (digits 2 ds).map Int.ofNat
    | _ =>
      let (negative, ds) := match word with
        | '+' :: ds => (false, ds)
        | '-' :: ds => (true, ds)
        | ds => (false, ds)
      if ds.head? = some '0' ∧ 1 < ds.length then none
      else (digits 10 ds).map fun n => if negative then -(n : Int) else n
  if -Int.pow 2 63 ≤ n ∧ n < Int.pow 2 63 then some n else none

def isWordChar (c : Char) : Bool := c.isAlphanum || c == '_' || c == '-' || c == '+' || c == '.'

def word (cs : List Char) : Option (Value × List Char) :=
  let w := cs.takeWhile isWordChar
  let rest := cs.drop w.length
  if w = "true".toList then some (.boolean true, rest)
  else if w = "false".toList then some (.boolean false, rest)
  else (integer w).map fun n => (.integer n, rest)

mutual

def value : Nat → List Char → Option (Value × List Char)
  | 0, _ => none
  | fuel + 1, cs =>
    let string (r : Option (String × List Char)) : Option (Value × List Char) :=
      r.map fun (s, rest) => (.string s, rest)
    match cs with
    | '"' :: '"' :: '"' :: rest =>
      string (longString '"' true (rest.length + 1) [] (dropFirstLineEnd rest))
    | '"' :: rest => string (basicString (rest.length + 1) [] rest)
    | '\'' :: '\'' :: '\'' :: rest =>
      string (longString '\'' false (rest.length + 1) [] (dropFirstLineEnd rest))
    | '\'' :: rest => string (literalString rest)
    | '[' :: rest => arrayItems fuel [] (skipLines (rest.length + 1) rest)
    | '\x7b' :: rest =>
      match skipBlanks rest with
      | '\x7d' :: rest => some (.inlineTable [], rest)
      | rest => inlinePairs fuel [] rest
    | cs => word cs

def arrayItems : Nat → List Value → List Char → Option (Value × List Char)
  | 0, _, _ => none
  | fuel + 1, acc, cs =>
    match cs with
    | ']' :: rest => some (.array acc.reverse, rest)
    | cs =>
      match value fuel cs with
      | none => none
      | some (v, rest) =>
        match skipLines (rest.length + 1) rest with
        | ',' :: rest => arrayItems fuel (v :: acc) (skipLines (rest.length + 1) rest)
        | ']' :: rest => some (.array (v :: acc).reverse, rest)
        | _ => none

def inlinePairs : Nat → List (Key × Value) → List Char → Option (Value × List Char)
  | 0, _, _ => none
  | fuel + 1, acc, cs =>
    match keyOf cs with
    | some (k, '=' :: rest) =>
      match value fuel (skipBlanks rest) with
      | none => none
      | some (v, rest) =>
        match skipBlanks rest with
        | ',' :: rest => inlinePairs fuel ((k, v) :: acc) rest
        | '\x7d' :: rest => some (.inlineTable ((k, v) :: acc).reverse, rest)
        | _ => none
    | _ => none

end

def statement (cs : List Char) : Option (Statement × List Char) :=
  match cs with
  | '[' :: '[' :: rest => do
    match ← keyOf rest with
    | (k, ']' :: ']' :: rest) => some (.arrayTable k, ← statementEnd rest)
    | _ => none
  | '[' :: rest => do
    match ← keyOf rest with
    | (k, ']' :: rest) => some (.table k, ← statementEnd rest)
    | _ => none
  | cs => do
    match ← keyOf cs with
    | (k, '=' :: rest) =>
      let (v, rest) ← value (rest.length + 1) (skipBlanks rest)
      some (.pair k v, ← statementEnd rest)
    | _ => none

def statements : Nat → List Char → Option (List Statement)
  | 0, _ => none
  | fuel + 1, cs =>
    match skipLines (cs.length + 1) cs with
    | [] => some []
    | cs => do
      let (s, rest) ← statement cs
      return s :: (← statements fuel rest)

end Reader

def statementsOf? (s : String) : Option (List Statement) :=
  let cs := match s.toList with
    | '\ufeff' :: cs => cs
    | cs => cs
  Reader.statements (cs.length + 1) cs

end Switchboard.Toml
