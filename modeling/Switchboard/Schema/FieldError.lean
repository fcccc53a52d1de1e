import Switchboard.Decode

namespace Switchboard

inductive FieldErrorKind where
  | required | invalidType | nullNotAllowed | unexpectedField | constraint | custom
deriving DecidableEq

namespace FieldErrorKind

def all : List FieldErrorKind :=
  [required, invalidType, nullNotAllowed, unexpectedField, constraint, custom]

def name : FieldErrorKind → String
  | required => "required"
  | invalidType => "invalid_type"
  | nullNotAllowed => "null_not_allowed"
  | unexpectedField => "unexpected_field"
  | constraint => "constraint"
  | custom => "custom"

def named : List (String × FieldErrorKind) := all.map fun k => (k.name, k)

end FieldErrorKind

structure FieldError where
  path : String
  kind : FieldErrorKind
  message : String
deriving DecidableEq

abbrev FieldErrors := List FieldError

def joinPath (parent child : String) : String :=
  if parent.isEmpty then child else parent ++ "." ++ child

namespace FieldError

def text (e : FieldError) : String := "[" ++ e.path ++ "] " ++ e.message

def toJson (e : FieldError) : Json :=
  .ofFields [("attribute", .str e.path), ("kind", .str e.kind.name), ("message", .str e.message)]

def ofParts? (path kind message : Json) : Option FieldError :=
  match path, Decode.variant FieldErrorKind.named kind, message with
  | .str path, .ok kind, .str message => some ⟨path, kind, message⟩
  | _, _, _ => none

def ofJson? : Json → Option FieldError
  | .obj fields => do
    let field? (key : String) : Option Json := Fields.get? fields key
    ofParts? (← field? "attribute") (← field? "kind") (← field? "message")
  | .arr [path, kind, message] => ofParts? path kind message
  | _ => none

end FieldError

namespace FieldErrors

def firstAt? (errors : FieldErrors) (path : String) : Option FieldError :=
  List.find? (fun e => e.path == path) errors

def text (errors : FieldErrors) : String := "; ".intercalate (errors.map FieldError.text)

def toJson (errors : FieldErrors) : Json := .arr (errors.map FieldError.toJson)

def ofJson? : Json → Option FieldErrors
  | .arr items => items.mapM FieldError.ofJson?
  | _ => none

end FieldErrors

end Switchboard
