import Switchboard.Calls.Method
import Switchboard.Settings
import Switchboard.Unicode.Category

namespace Switchboard

abbrev Directory (α : Type) := List (String × α)

namespace Directory

variable {α : Type}

def get? (d : Directory α) (name : String) : Option α := d.lookup name

def contains (d : Directory α) (name : String) : Bool := (d.get? name).isSome

def insert (name : String) (a : α) : Directory α → Directory α
  | [] => [(name, a)]
  | (n, b) :: rest =>
    if name < n then (name, a) :: (n, b) :: rest
    else if name = n then (name, a) :: rest
    else (n, b) :: insert name a rest

end Directory

inductive RegistryError where
  | duplicateMethod (name : String)
  | duplicateEventSource (name : String)
  | invalidName (name : String)
deriving DecidableEq

namespace RegistryError

def name : RegistryError → String
  | duplicateMethod _ => "DuplicateMethod"
  | duplicateEventSource _ => "DuplicateEventSource"
  | invalidName _ => "InvalidName"

def message : RegistryError → String
  | duplicateMethod name => s!"Method {name} is already registered"
  | duplicateEventSource name => s!"Event source {name} is already registered"
  | invalidName name =>
    s!"Invalid name {quoted name}: expected non-empty dot-separated segments"

def toJson (e : RegistryError) : Json :=
  .ofFields [("error", .str e.name), ("message", .str e.message)]

end RegistryError

def nameSegments (name : List Char) : List (List Char) :=
  match name with
  | [] => [[]]
  | c :: rest =>
    match nameSegments rest with
    | [] => [[c]]
    | segment :: more => if c = '.' then [] :: segment :: more else (c :: segment) :: more

/-- Whether a name has no empty segment and no blank. -/
def isValidName (name : String) : Bool :=
  (nameSegments name.toList).all fun segment => !segment.isEmpty && !segment.any Unicode.isBlank

structure Hook where
  name : String
  run : Json → Handler

structure SourceEntry where
  accepts : Param
  source : Json → Except CallError EventSource

structure Registry where
  methods : Directory Method := []
  eventSources : Directory SourceEntry := []
  hooks : Directory (List Hook) := []

namespace Registry

def method? (r : Registry) (name : String) : Option Method := r.methods.get? name

def handlers (r : Registry) (event : String) : List Hook := (r.hooks.get? event).getD []

def addMethod (r : Registry) (m : Method) : Except RegistryError Registry :=
  if !isValidName m.name then .error (.invalidName m.name)
  else if r.methods.contains m.name then .error (.duplicateMethod m.name)
  else .ok { r with methods := r.methods.insert m.name m }

def addEventSource (r : Registry) (name : String) (entry : SourceEntry) :
    Except RegistryError Registry :=
  if !isValidName name then .error (.invalidName name)
  else if r.eventSources.contains name then .error (.duplicateEventSource name)
  else .ok { r with eventSources := r.eventSources.insert name entry }

def addHook (r : Registry) (event : String) (hook : Hook) : Registry :=
  { r with hooks := r.hooks.insert event (r.handlers event ++ [hook]) }

end Registry

structure Builder where
  settings : CoreSettings := {}
  registry : Registry := {}
  log : List LogRecord := []

namespace Builder

/-- What a registration leads to. One that fails keeps what it has registered before. -/
abbrev Registration := Builder × Option RegistryError

def addMethod (b : Builder) (m : Method) : Registration :=
  match b.registry.addMethod m with
  | .ok r => ({ b with
      registry := r
      log := b.log ++ [⟨.debug, s!"Registered method {m.name}"⟩] }, none)
  | .error e => (b, some e)

def addMethods (b : Builder) : List Method → Registration
  | [] => (b, none)
  | m :: rest =>
    match b.addMethod m with
    | (b, none) => addMethods b rest
    | (b, some e) => (b, some e)

def addService (b : Builder) (space : String) (methods : List Method) : Registration :=
  if isValidName space then
    b.addMethods (methods.map fun m => { m with name := s!"{space}.{m.name}" })
  else (b, some (.invalidName space))

def addEventSource (b : Builder) (name : String) (entry : SourceEntry) : Registration :=
  match b.registry.addEventSource name entry with
  | .ok r => ({ b with registry := r }, none)
  | .error e => (b, some e)

def addHook (b : Builder) (event : String) (hook : Hook) : Builder :=
  { b with registry := b.registry.addHook event hook }

end Builder

end Switchboard
