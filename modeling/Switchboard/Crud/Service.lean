import Switchboard.Calls.Method
import Switchboard.JsonText
import Switchboard.Query.Run

namespace Switchboard

structure CrudService where
  space : String
  primaryKey : String := "id"
  idParam : Param := (Param.int "id").require
  createSchema : Param
  updateSchema : Param := createSchema.relax
  job : Option JobOptions := none
  entries : CallContext → Routine (Except CallError (List Json))
  create : CallContext → Json → Routine Outcome
  update : CallContext → Json → Json → Routine Outcome
  delete : CallContext → Json → Routine Outcome

namespace CrudService

/-- An argument by its place; those that are left out are null. -/
def argument (args : List Json) (n : Nat) : Json := (args[n]?).getD .null

def filtersOf : Json → List Json
  | .arr filters => filters
  | _ => []

def keyFilter (s : CrudService) (id : Json) : Json := .arr [.str s.primaryKey, .str "=", id]

def query [PatternReader] (s : CrudService) (context : CallContext) (filters : List Json)
    (options : QueryOptions) : Routine (Except CallError Json) := do
  match ← s.entries context with
  | .error e => return .error e
  | .ok records => return queryRecords records filters options

/-- What a query for one record answers when there is none with the key. -/
def named (s : CrudService) (id : Json) : Except CallError Json → Except CallError Json
  | .error .matchNotFound => .error (.notFound s!"{s.space} {id.text} does not exist")
  | r => r

def runQuery [PatternReader] (s : CrudService) (context : CallContext) (args : List Json) :
    Routine Outcome := do
  match queryOptionsOf (argument args 1) with
  | .error e => return .failed e
  | .ok options =>
    return .ofResult (← s.query context (filtersOf (argument args 0)) options)

def runGetInstance [PatternReader] (s : CrudService) (context : CallContext) (args : List Json) :
    Routine Outcome := do
  match queryOptionsOf (argument args 1) with
  | .error e => return .failed e
  | .ok options =>
    let id := argument args 0
    let result ← s.query context [s.keyFilter id] { options with get := true }
    return .ofResult (s.named id result)

def methods [PatternReader] (s : CrudService) : List Method := [
  { name := "query", kind := .query, accepts := [queryFiltersParam, queryOptionsParam]
    body := fun context args => s.runQuery context args },
  { name := "get_instance", kind := .getInstance, accepts := [s.idParam, queryOptionsParam]
    body := fun context args => s.runGetInstance context args },
  { name := "create", kind := .create, accepts := [s.createSchema.require], job := s.job
    body := fun context args => s.create context (argument args 0) },
  { name := "update", kind := .update, accepts := [s.idParam, s.updateSchema], job := s.job
    body := fun context args => s.update context (argument args 0) (argument args 1) },
  { name := "delete", kind := .delete, accepts := [s.idParam], job := s.job
    body := fun context args => s.delete context (argument args 0) }]

end CrudService

structure ShelfOptions where
  space : String
  primaryKey : String := "id"
  idParam : Option Param := none
  createSchema : Param
  updateSchema : Option Param := none
  job : Option JobOptions := none
  gate : Option String := none
  entriesError : Option CallError := none

namespace ShelfOptions

def service (o : ShelfOptions) (shelf : Nat) : CrudService where
  space := o.space
  primaryKey := o.primaryKey
  idParam := o.idParam.getD (Param.int "id").require
  createSchema := o.createSchema
  updateSchema := o.updateSchema.getD o.createSchema.relax
  job := o.job
  entries _ := do
    match o.entriesError with
    | some e => return .error e
    | none =>
      let s : Shelf ← Routine.ask (.readShelf shelf)
      return .ok s.records
  create _ data := do
    if let some name := o.gate then
      Routine.ask (.gate name)
    let s : Shelf ← Routine.ask (.readShelf shelf)
    let (record, s) := s.create o.primaryKey data
    Routine.ask (.writeShelf shelf s)
    return .returned record
  update _ id data := do
    let s : Shelf ← Routine.ask (.readShelf shelf)
    match s.update? o.primaryKey id data with
    | none => return .failed (.notFound s!"{o.space} {id.text} missing")
    | some (record, s) =>
      Routine.ask (.writeShelf shelf s)
      return .returned record
  delete _ id := do
    let s : Shelf ← Routine.ask (.readShelf shelf)
    match s.delete? o.primaryKey id with
    | none => return .failed (.failed s!"cannot delete {id.text}")
    | some s =>
      Routine.ask (.writeShelf shelf s)
      return .returned (.bool true)

end ShelfOptions

end Switchboard
