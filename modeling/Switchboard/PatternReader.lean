namespace Switchboard

/-- An engine for patterns. It reads a pattern as the condition on the texts in which it has a
match, or says why the text is no pattern. -/
class PatternReader where
  read : String → Except String (String → Bool)

/-- The engine that knows no pattern but plain texts, which match where they are a part. -/
abbrev PatternReader.plain : PatternReader where
  read source :=
    if source.any fun c : Char => "\\.+*?()|[]\x7b\x7d^$".contains c then .error "regex parse error"
    else .ok fun text => text.contains source

end Switchboard
