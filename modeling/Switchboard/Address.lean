import Switchboard.Decimal

namespace Switchboard

inductive IpAddress where
  | v4 (bytes : List Nat)
  | v6 (groups : List Nat)
deriving DecidableEq

/-- An address with the number of a listener on it, and for the longer addresses a scope, 0 meaning
none. -/
structure SocketAddress where
  address : IpAddress
  scope : Nat
  listener : Nat
deriving DecidableEq

namespace Address

def digit? (radix : Nat) (c : Char) : Option Nat :=
  let n :=
    if c.isDigit then c.toNat - 48
    else if 'a' ≤ c ∧ c ≤ 'z' then c.toNat - 87
    else if 'A' ≤ c ∧ c ≤ 'Z' then c.toNat - 55
    else radix
  if n < radix then some n else none

def number (radix limit : Nat) (width : Option Nat) (zeroFirst : Bool) (cs : List Char) :
    Option (Nat × List Char) :=
  let ds := cs.takeWhile fun c => (digit? radix c).isSome
  let n := ds.foldl (fun n c => n * radix + (digit? radix c).getD 0) 0
  let tooWide : Bool := match width with
    | some w => decide (w < ds.length)
    | none => false
  if ds.isEmpty ∨ tooWide ∨ limit ≤ n ∨ (!zeroFirst ∧ ds.head? = some '0' ∧ 1 < ds.length) then none
  else some (n, cs.drop ds.length)

def char (c : Char) (cs : List Char) : Option (List Char) :=
  match cs with
  | d :: rest => if c = d then some rest else none
  | [] => none

def byte (cs : List Char) : Option (Nat × List Char) := number 10 256 (some 3) false cs

def fourBytes (cs : List Char) : Option (List Nat × List Char) := do
  let (a, cs) ← byte cs
  let (b, cs) ← byte (← char '.' cs)
  let (c, cs) ← byte (← char '.' cs)
  let (d, cs) ← byte (← char '.' cs)
  some ([a, b, c, d], cs)

/-- Up to `limit` groups separated by colons, of which four bytes may stand for the last two; tells
whether they did. -/
def groups : Nat → Bool → List Char → List Nat × Bool × List Char
  | 0, _, cs => ([], false, cs)
  | limit + 1, first, cs =>
    let start := if first then some cs else char ':' cs
    match if 0 < limit then start.bind fourBytes else none with
    | some ([a, b, c, d], rest) => ([a * 256 + b, c * 256 + d], true, rest)
    | _ =>
      match start.bind (number 16 65536 (some 4) true) with
      | none => ([], false, cs)
      | some (g, rest) =>
        let (gs, bytes, rest) := groups limit false rest
        (g :: gs, bytes, rest)

def eightGroups (cs : List Char) : Option (List Nat × List Char) :=
  let (head, bytes, rest) := groups 8 true cs
  if head.length = 8 then some (head, rest)
  else if bytes then none
  else do
    let rest ← char ':' (← char ':' rest)
    let (tail, _, rest) := groups (7 - head.length) true rest
    some (head ++ List.replicate (8 - head.length - tail.length) 0 ++ tail, rest)

def ip (cs : List Char) : Option (IpAddress × List Char) :=
  match fourBytes cs with
  | some (bytes, rest) => some (.v4 bytes, rest)
  | none => (eightGroups cs).map fun (gs, rest) => (.v6 gs, rest)

def listener (cs : List Char) : Option (Nat × List Char) := do
  number 10 65536 none true (← char ':' cs)

def socketV4 (cs : List Char) : Option (SocketAddress × List Char) := do
  let (bytes, cs) ← fourBytes cs
  let (p, cs) ← listener cs
  some (⟨.v4 bytes, 0, p⟩, cs)

def socketV6 (cs : List Char) : Option (SocketAddress × List Char) := do
  let (gs, cs) ← eightGroups (← char '[' cs)
  let (scope, cs) := match (char '%' cs).bind (number 10 (Nat.pow 2 32) none true) with
    | some (n, rest) => (n, rest)
    | none => (0, cs)
  let (p, cs) ← listener (← char ']' cs)
  some (⟨.v6 gs, scope, p⟩, cs)

def longestZeros : Nat → List Nat → Nat × Nat
  | _, [] => (0, 0)
  | i, g :: gs =>
    let here := ((g :: gs).takeWhile (· = 0)).length
    let later := longestZeros (i + 1) gs
    if 0 < here ∧ later.2 ≤ here then (i, here) else later

def joinHex (gs : List Nat) : List Char :=
  [':'].intercalate (gs.map (Nat.toDigits 16 ·))

def joinBytes (bytes : List Nat) : List Char :=
  ['.'].intercalate (bytes.map digitsOf)

end Address

namespace IpAddress

def ofText? (s : String) : Option IpAddress :=
  match Address.ip s.toList with
  | some (a, []) => some a
  | _ => none

def chars : IpAddress → List Char
  | v4 bytes => Address.joinBytes bytes
  | v6 [0, 0, 0, 0, 0, 0xffff, g, h] =>
    "::ffff:".toList ++ Address.joinBytes [g / 256, g % 256, h / 256, h % 256]
  | v6 gs =>
    let (start, length) := Address.longestZeros 0 gs
    if 1 < length then
      Address.joinHex (gs.take start) ++ "::".toList ++ Address.joinHex (gs.drop (start + length))
    else Address.joinHex gs

def text (a : IpAddress) : String := String.ofList a.chars

end IpAddress

namespace SocketAddress

def ofText? (s : String) : Option SocketAddress :=
  match Address.socketV4 s.toList with
  | some (a, rest) => if rest.isEmpty then some a else none
  | none =>
    match Address.socketV6 s.toList with
    | some (a, []) => some a
    | _ => none

def text (a : SocketAddress) : String :=
  let host := match a.address with
    | .v4 _ => a.address.chars
    | .v6 _ =>
      let scope := if a.scope = 0 then [] else '%' :: digitsOf a.scope
      '[' :: (a.address.chars ++ scope ++ [']'])
  String.ofList (host ++ ':' :: digitsOf a.listener)

end SocketAddress

end Switchboard
