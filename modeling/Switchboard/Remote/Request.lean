import Switchboard.Calls.Dispatch

namespace Switchboard.Remote

structure ErrorObject where
  code : Int
  message : String
  data : Json

namespace ErrorObject

def toJson (e : ErrorObject) : Json :=
  .ofFields [("code", .int e.code), ("message", .str e.message), ("data", e.data)]

def invalidParams : ErrorObject := ⟨-32602, "Invalid params", .null⟩

def methodNotFound : ErrorObject := ⟨-32601, "Method not found", .null⟩

end ErrorObject

inductive Params where
  | positional (values : List Json)
  | named (fields : Fields)

namespace Params

def ofJson : Json → Except ErrorObject Params
  | .arr values => .ok (positional values)
  | .obj fields => .ok (named fields)
  | .null => .ok (positional [])
  | _ => .error .invalidParams

def get (p : Params) (place : Nat) (names : List String) : Except ErrorObject (Option Json) :=
  match p with
  | positional values => .ok values[place]?
  | named fields =>
    match names.filterMap fields.get? with
    | [] => .ok none
    | [v] => .ok (some v)
    | _ => .error .invalidParams

def required {α : Type} (p : Params) (place : Nat) (names : List String)
    (read? : Json → Option α) : Except ErrorObject α := do
  match (← p.get place names).bind read? with
  | some a => return a
  | none => .error .invalidParams

def optional {α : Type} (p : Params) (place : Nat) (names : List String)
    (read? : Json → Option α) : Except ErrorObject (Option α) := do
  match ← p.get place names with
  | none | some .null => return none
  | some v =>
    match read? v with
    | some a => return some a
    | none => .error .invalidParams

end Params

def text? : Json → Option String
  | .str s => some s
  | _ => none

def list? : Json → Option (List Json)
  | .arr items => some items
  | _ => none

inductive Request where
  | call (method : String) (args : List Json)
  | jobWait (id : Nat) (timeoutSeconds : Option Nat)
  | jobAbort (id : Nat)
  | unsubscribe

namespace Request

/-- Reads a request. The method comes first: without one, the parameters do not matter. -/
def ofJson (method : String) (params : Json) : Except ErrorObject Request := do
  match method with
  | "core_call" =>
    let p ← Params.ofJson params
    let name ← p.required 0 ["method"] text?
    let args ← p.optional 1 ["params"] list?
    return .call name (args.getD [])
  | "core_job_wait" =>
    let p ← Params.ofJson params
    let id ← p.required 0 ["id"] Json.asWord?
    return .jobWait id (← p.optional 1 ["timeout_secs", "timeoutSecs"] Json.asWord?)
  | "core_job_abort" =>
    let p ← Params.ofJson params
    return .jobAbort (← p.required 0 ["id"] Json.asWord?)
  | "core_unsubscribe" => return .unsubscribe
  | _ => .error .methodNotFound

def routine (x : Exchange) : Request → Routine (Except CallError Json)
  | .call method args => x.call method args
  | .jobWait id timeout => do
    return (← Exchange.waitJob id (timeout.map (· * 1000))).map JobSnapshot.toJson
  | .jobAbort id => Exchange.abortJob id
  | .unsubscribe => return .ok (.bool false)

end Request

structure StreamRequest where
  source : String
  args : Json

namespace StreamRequest

def ofJson (method : String) (params : Json) : Except ErrorObject StreamRequest := do
  if method ≠ "core_subscribe" then .error .methodNotFound
  else
    let p ← Params.ofJson params
    let source ← p.required 0 ["source"] text?
    let args ← p.optional 1 ["args"] some
    return ⟨source, args.getD .null⟩

end StreamRequest

def coreNames : List String :=
  ["core_call", "core_job_wait", "core_job_abort", "core_subscribe", "core_unsubscribe"]

/-- Adds names to those that can be called, unless one of them is there. -/
def addNames (names more : List String) : Option (List String) :=
  if more.any names.contains then none else some (names ++ more)

def address (s : RpcSettings) : Option SocketAddress :=
  if s.enabled then some s.bindAddress else none

end Switchboard.Remote
