import Switchboard.Json
import Switchboard.Unicode.Category

namespace Switchboard

inductive Overflow where
  | add | sub | mul
deriving DecidableEq

namespace Overflow

def message : Overflow → String
  | add => "attempt to add with overflow"
  | sub => "attempt to subtract with overflow"
  | mul => "attempt to multiply with overflow"

end Overflow

def wordLimit : Nat := Nat.pow 2 64

namespace Word

def add (a b : Nat) : Except Overflow Nat :=
  if wordLimit ≤ a + b then .error .add else .ok (a + b)

def sub (a b : Nat) : Except Overflow Nat := if a < b then .error .sub else .ok (a - b)

def mul (a b : Nat) : Except Overflow Nat :=
  if wordLimit ≤ a * b then .error .mul else .ok (a * b)

def sum (ns : List Nat) : Except Overflow Nat := ns.foldlM add 0

end Word

namespace Reporting

def linesOf : List Char → List (List Char)
  | [] => []
  | '\n' :: cs => [] :: linesOf cs
  | '\r' :: '\n' :: cs => [] :: linesOf cs
  | c :: cs =>
    match linesOf cs with
    | [] => [[c]]
    | l :: ls => (c :: l) :: ls

def wordsFrom : List Char → List Char → List (List Char)
  | acc, [] => if acc.isEmpty then [] else [acc.reverse]
  | acc, c :: cs =>
    if Unicode.isBlank c then
      if acc.isEmpty then wordsFrom [] cs else acc.reverse :: wordsFrom [] cs
    else wordsFrom (c :: acc) cs

def wordsOf (cs : List Char) : List (List Char) := wordsFrom [] cs

def wordOfText? (cs : List Char) : Option Nat :=
  let ds := match cs with
    | '+' :: rest => rest
    | _ => cs
  let n := ds.foldl (fun n c => n * 10 + (c.toNat - 48)) 0
  if ds.isEmpty || !ds.all Char.isDigit || wordLimit ≤ n then none else some n

structure CpuTimes where
  busy : Nat
  total : Nat
deriving DecidableEq

def leadingNumbers : List (List Char) → List Nat
  | [] => []
  | w :: ws =>
    match wordOfText? w with
    | some n => n :: leadingNumbers ws
    | none => []

def cpuLine? (line : List Char) : Option (String × List Nat) :=
  match wordsOf line with
  | ('c' :: 'p' :: 'u' :: name) :: fields =>
    let numbers := leadingNumbers (fields.take 8)
    if numbers.length < 4 then none
    else some (if name.isEmpty then "average" else String.ofList name, numbers)
  | _ => none

/-- The times that the numbers of a line give: of the first eight, the fourth and the fifth are idle
ones. -/
def timesOf (numbers : List Nat) : Except Overflow CpuTimes := do
  let total ← Word.sum numbers
  let idle ← Word.add (numbers.getD 3 0) (numbers.getD 4 0)
  let busy ← Word.sub total idle
  return ⟨busy, total⟩

abbrev CpuTable := List (String × CpuTimes)

namespace CpuTable

def insert (name : String) (t : CpuTimes) : CpuTable → CpuTable
  | [] => [(name, t)]
  | (k, u) :: rest =>
    if name < k then (name, t) :: (k, u) :: rest
    else if name = k then (name, t) :: rest
    else (k, u) :: insert name t rest

end CpuTable

/-- The times of all processors in a text; of two lines with one name the last counts. -/
def cpuTable (text : String) : Except Overflow CpuTable :=
  (linesOf text.toList).foldlM (fun table line =>
    match cpuLine? line with
    | none => .ok table
    | some (name, numbers) => (timesOf numbers).map fun t => CpuTable.insert name t table) []

def usage (before now : CpuTimes) : Double :=
  let busy := now.busy - before.busy
  let total := now.total - before.total
  if total = 0 then Double.zero
  else
    let percent : Option Double := do
      let scaled ← (← Double.ofInt? busy).mul? (← Double.ofInt? 100)
      scaled.div? (← Double.ofInt? total)
    percent.getD Double.zero

def cpuUsage (before now : CpuTable) : Json :=
  .ofFields (now.filterMap fun (name, t) =>
    (before.lookup name).map fun b => (name, .ofFields [("usage", .float (usage b t))]))

def memoryNames : List (String × String) :=
  [("MemTotal", "total"), ("MemFree", "free"), ("MemAvailable", "available"),
    ("Buffers", "buffers"), ("Cached", "cached"), ("SwapFree", "swap_free")]

def dropReversedUnit : List Char → List Char
  | 'B' :: 'k' :: rest => dropReversedUnit rest
  | rest => rest

def dropUnit (cs : List Char) : List Char := (dropReversedUnit cs.reverse).reverse

def memoryLine? (line : List Char) : Option (String × Nat) := do
  let key := line.takeWhile (· != ':')
  let rest ← (line.drop key.length).tail?
  let name ← memoryNames.lookup (String.ofList key)
  let number := Unicode.trimBlanks (dropUnit (Unicode.trimBlanks rest))
  some (name, ← wordOfText? number)

def memoryFigures (text : String) : Except Overflow Fields :=
  (linesOf text.toList).foldlM (fun fields line =>
    match memoryLine? line with
    | none => .ok fields
    | some (name, kib) =>
      (Word.mul kib 1024).map fun bytes => Fields.insert name (.nat bytes) fields) []

end Reporting

end Switchboard
