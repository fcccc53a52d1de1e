import Switchboard.Settings
import Switchboard.Toml.Document

namespace Switchboard

inductive SettingsSource where
  | absent
  | notUtf8
  | text (s : String)

inductive SettingsError where
  | unreadable (path : String)
  | malformed
deriving DecidableEq

namespace SettingsError

def message : SettingsError → String
  | unreadable path => "Unable to read config file in " ++ path
  | malformed => "Failed to parse config"

end SettingsError

namespace SettingsFile

/-- Of a section written as a list, only as many values count as the section has fields. -/
def withoutSurplus (v : Json) : Json :=
  let take (n : Nat) : Json → Json
    | .arr items => .arr (items.take n)
    | v => v
  let readable (key : String) (v : Json) : Json :=
    match key with
    | "middleware" => take CoreSection.layout.fields.length v
    | "rpc" => take RpcSection.layout.fields.length v
    | _ => v
  match v with
  | .obj fields => .obj (fields.map fun f => (f.1, readable f.1 f.2))
  | v => v

def ofText (s : String) : Except SettingsError SettingsFile :=
  match Toml.document? s with
  | none => .error .malformed
  | some v =>
    match ofJson (withoutSurplus v) with
    | .ok f => .ok f
    | .error _ => .error .malformed

/-- The settings of a file at a path; no file means defaults. -/
def read (path : String) (options : RunOptions) (source : SettingsSource) :
    Except SettingsError SettingsFile :=
  match source with
  | .absent => (ofText "").map (override options)
  | .notUtf8 => .error (.unreadable path)
  | .text s => (ofText s).map (override options)

end SettingsFile

end Switchboard
