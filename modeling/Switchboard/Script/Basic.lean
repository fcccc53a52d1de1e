import Switchboard.Error

namespace Switchboard

inductive PanicPayload where
  | text (s : String)
  | other
deriving DecidableEq

/-- A statement. Its operands may refer to the arguments, to the last value and to the job. -/
inductive Statement where
  | yield (v : Json)
  | set (v : Json)
  | fail (text : String)
  | raise (error : Json)
  | failUnless (a b : Json) (text : String)
  | panic (payload : PanicPayload)
  | gate (name : String)
  | sleep (ms : Nat)
  | progress (percent : Nat) (description : Option String)
  | note (v : Json)
  | job
  | isCancelled
  | checkCancelled
  | awaitCancel
  | call (method : Json) (args : Json)
  | tryCall (method : Json) (args : Json)
  | launch (method : Json) (args : Json)
  | abort (id : Json)
  | fire (event payload : Json)

abbrev Script := List Statement

structure Scope where
  args : List Json
  last : Json := .null
  job : Option Nat

namespace Scope

def argumentIndex? (digits : List Char) : Option Nat :=
  if digits.isEmpty || digits.any (fun c => !c.isDigit) then none
  else some (digits.foldl (fun n c => n * 10 + (c.toNat - '0'.toNat)) 0)

def name? (s : Scope) (text : String) : Option Json :=
  match text.toList with
  | '$' :: rest =>
    if text = "$args" then some (.arr s.args)
    else if text = "$last" then some s.last
    else if text = "$job" then some (.ofNat? s.job)
    else (argumentIndex? rest).map fun n => (s.args[n]?).getD .null
  | _ => none

mutual

def resolve (s : Scope) : Json → Json
  | .str text => (s.name? text).getD (.str text)
  | .arr items => .arr (resolveItems s items)
  | .obj fields => .obj (resolveFields s fields)
  | v => v

def resolveItems (s : Scope) : List Json → List Json
  | [] => []
  | v :: rest => s.resolve v :: resolveItems s rest

def resolveFields (s : Scope) : List (String × Json) → List (String × Json)
  | [] => []
  | (k, v) :: rest => (k, s.resolve v) :: resolveFields s rest

end

end Scope

end Switchboard
