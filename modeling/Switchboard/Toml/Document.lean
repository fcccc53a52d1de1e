import Switchboard.Toml.Reader

namespace Switchboard.Toml

inductive Origin where
  | header
  | implied
  | dotted
deriving DecidableEq

inductive Item where
  | value (v : Json)
  | table (origin : Origin) (entries : List (String × Item))
  | tables (all : List (List (String × Item)))
deriving Inhabited

abbrev Entries := List (String × Item)

namespace Entries

def set (key : String) (item : Item) : Entries → Entries
  | [] => [(key, item)]
  | (k, i) :: rest => if k = key then (k, item) :: rest else (k, i) :: set key item rest

/-- Changes the entries at the end of a path, making tables of the given origin on the way. Keys
with dots do not lead into tables that have a header. -/
def modify (origin : Origin) (change : Entries → Option Entries) : Key → Entries → Option Entries
  | [], entries => change entries
  | k :: ks, entries =>
    match entries.lookup k with
    | none => (modify origin change ks []).map fun inner => entries.set k (.table origin inner)
    | some (.table o inner) =>
      if origin = .dotted ∧ o = .header then none
      else (modify origin change ks inner).map fun inner => entries.set k (.table o inner)
    | some (.tables (last :: others)) =>
      (modify origin change ks last).map fun last => entries.set k (.tables (last :: others))
    | some _ => none

def originAt? : Key → Entries → Option Origin
  | [], _ => none
  | k :: ks, entries =>
    match entries.lookup k with
    | some (.table o inner) => if ks.isEmpty then some o else originAt? ks inner
    | some (.tables (last :: _)) => if ks.isEmpty then none else originAt? ks last
    | _ => none

def add (key : String) (v : Json) (entries : Entries) : Option Entries :=
  match entries.lookup key with
  | none => some (entries ++ [(key, .value v)])
  | some _ => none

/-- Adds a value under a key with dots. Only tables made by such keys take more of them. -/
def addPair (key : Key) (v : Json) (entries : Entries) : Option Entries :=
  match key.reverse with
  | [] => none
  | last :: front =>
    let path := front.reverse
    match originAt? path entries with
    | some .dotted | none => modify .dotted (add last v) path entries
    | some _ => none

def openTable (key : String) (entries : Entries) : Option Entries :=
  match entries.lookup key with
  | none => some (entries.set key (.table .header []))
  | some (.table .implied inner) => some (entries.set key (.table .header inner))
  | some _ => none

def pushTable (key : String) (entries : Entries) : Option Entries :=
  match entries.lookup key with
  | none => some (entries.set key (.tables [[]]))
  | some (.tables all) => some (entries.set key (.tables ([] :: all)))
  | some _ => none

end Entries

mutual

def Item.toJson : Item → Json
  | .value v => v
  | .table _ entries => .ofFields (fieldsOf entries)
  | .tables all => .arr (tablesOf all).reverse

def fieldsOf : List (String × Item) → List (String × Json)
  | [] => []
  | (k, i) :: rest => (k, i.toJson) :: fieldsOf rest

def tablesOf : List (List (String × Item)) → List Json
  | [] => []
  | t :: rest => .ofFields (fieldsOf t) :: tablesOf rest

end

mutual

def Value.toJson? : Value → Option Json
  | .string s => some (.str s)
  | .integer n => some (.int n)
  | .boolean b => some (.bool b)
  | .array items => (itemsToJson? items).map .arr
  | .inlineTable pairs => (pairsToJson? pairs []).map fun entries => .ofFields (fieldsOf entries)

def itemsToJson? : List Value → Option (List Json)
  | [] => some []
  | v :: vs =>
    match v.toJson?, itemsToJson? vs with
    | some w, some ws => some (w :: ws)
    | _, _ => none

def pairsToJson? : List (Key × Value) → Entries → Option Entries
  | [], entries => some entries
  | (k, v) :: rest, entries =>
    match v.toJson? with
    | none => none
    | some w =>
      match entries.addPair k w with
      | none => none
      | some entries => pairsToJson? rest entries

end

structure Draft where
  entries : Entries := []
  current : Key := []

namespace Draft

def atHeader (d : Draft) (key : Key) (change : String → Entries → Option Entries) : Option Draft :=
  match key.reverse with
  | [] => none
  | last :: front =>
    (Entries.modify .implied (change last) front.reverse d.entries).map (⟨·, key⟩)

def push (d : Draft) : Statement → Option Draft
  | .table key => d.atHeader key Entries.openTable
  | .arrayTable key => d.atHeader key Entries.pushTable
  | .pair key v => do
    let w ← v.toJson?
    let entries ← Entries.modify .implied (Entries.addPair key w) d.current d.entries
    some { d with entries }

end Draft

def document? (s : String) : Option Json := do
  let d ← (← statementsOf? s).foldlM Draft.push ({} : Draft)
  some (.ofFields (fieldsOf d.entries))

end Switchboard.Toml
