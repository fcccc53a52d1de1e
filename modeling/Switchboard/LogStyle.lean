import Switchboard.Unicode.Case

namespace Switchboard

inductive Coloring where
  | on | off | auto
deriving DecidableEq

inductive LogStyle where
  | json
  | text (coloring : Coloring)
deriving DecidableEq

inductive LogStyleError where
  | unrecognized (name : String)
  | notUnicode (name : String)
deriving DecidableEq

namespace LogStyleError

def message : LogStyleError → String
  | unrecognized name => "Unrecognized log style: " ++ name
  | notUnicode name => "Env var error: Env var " ++ name ++ " is not valid unicode"

end LogStyleError

inductive EnvValue where
  | unset
  | notUnicode
  | text (s : String)

namespace LogStyle

def ofText (s : String) : Except LogStyleError LogStyle :=
  match Unicode.lowercase (Unicode.trim s) with
  | "json" => .ok json
  | "text" => .ok (text .auto)
  | "text-colored" => .ok (text .on)
  | "text-uncolored" => .ok (text .off)
  | other => .error (.unrecognized other)

def ofEnv (name : String) : EnvValue → Except LogStyleError (Option LogStyle)
  | .unset => .ok none
  | .notUnicode => .error (.notUnicode name)
  | .text s => (ofText s).map some

end LogStyle

end Switchboard
