import Switchboard.Pattern.CharSet

namespace Switchboard

inductive Look where
  | textStart | textEnd
  | lineStart (crlf : Bool) | lineEnd (crlf : Bool)
  | boundary (word : CharSet) | noBoundary (word : CharSet)
  | wordStart (word : CharSet) | wordEnd (word : CharSet)
  | wordStartHalf (word : CharSet) | wordEndHalf (word : CharSet)

inductive Pattern where
  | empty
  | char (set : CharSet)
  | look (l : Look)
  | seq (a b : Pattern)
  | alt (a b : Pattern)
  /-- At least `low` and at most `high` times, without a bound if there is no `high`. -/
  | times (a : Pattern) (low : Nat) (high : Option Nat)

namespace Look

def holds (l : Look) (before after : Option Char) : Bool :=
  let isWord (set : CharSet) (c : Option Char) : Bool := c.any set.contains
  match l with
  | textStart => before.isNone
  | textEnd => after.isNone
  | lineStart false => before.all (· == '\n')
  | lineStart true =>
    before.all fun c => c == '\n' || (c == '\r' && after != some '\n')
  | lineEnd false => after.all (· == '\n')
  | lineEnd true =>
    after.all fun c => c == '\r' || (c == '\n' && before != some '\r')
  | boundary set => isWord set before != isWord set after
  | noBoundary set => isWord set before == isWord set after
  | wordStart set => !isWord set before && isWord set after
  | wordEnd set => isWord set before && !isWord set after
  | wordStartHalf set => !isWord set before
  | wordEndHalf set => !isWord set after

end Look

namespace Pattern

def merge (ps qs : List Nat) : List Nat :=
  (List.merge ps qs (fun a b => a ≤ b)).eraseReps

def reach (step : List Nat → List Nat) : Nat → List Nat → List Nat
  | 0, ps => ps
  | rounds + 1, ps =>
    let next := merge ps (step ps)
    if next.length = ps.length then ps else reach step rounds next

def after (step : List Nat → List Nat) : Nat → List Nat → List Nat
  | 0, ps => ps
  | rounds + 1, ps => if ps.isEmpty then [] else after step rounds (step ps)

/-- The positions where a match that starts at one of `ps` can end. -/
def ends (text : Array Char) : Pattern → List Nat → List Nat
  | empty, ps => ps
  | char set, ps => ps.filterMap fun p =>
    match text[p]? with
    | some c => if set.contains c then some (p + 1) else none
    | none => none
  | look l, ps => ps.filter fun p =>
    l.holds (if p = 0 then none else text[p - 1]?) text[p]?
  | seq a b, ps => ends text b (ends text a ps)
  | alt a b, ps => merge (ends text a ps) (ends text b ps)
  | times a low high, ps =>
    let start := after (ends text a) low ps
    match high with
    | none => reach (ends text a) (text.size + 1) start
    | some high => reach (ends text a) (high - low) start

def isMatch (p : Pattern) (text : String) : Bool :=
  let cs := text.toList.toArray
  !(ends cs p (List.range (cs.size + 1))).isEmpty

/-- How many states an automaton for the pattern needs. -/
def size : Pattern → Nat
  | empty => 1
  | char (.range a b) => if a = b then a.utf8Size else 8
  | char _ => 30
  | look _ => 1
  | seq a b => a.size + b.size
  | alt a b => a.size + b.size + 1
  | times a low high => a.size * max 1 (high.getD low) + 1

end Pattern

end Switchboard
