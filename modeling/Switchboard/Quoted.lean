import Switchboard.Unicode.Category

namespace Switchboard

def hexDigits (n : Nat) : List Char := Nat.toDigits 16 n

def escapeVisibly (c : Char) : List Char :=
  match c with
  | '"' => ['\\', '"']
  | '\\' => ['\\', '\\']
  | '\n' => ['\\', 'n']
  | '\r' => ['\\', 'r']
  | '\t' => ['\\', 't']
  | '\x00' => ['\\', '0']
  | c =>
    if Unicode.extendsGrapheme c || !Unicode.isPrintable c then
      ['\\', 'u', '\x7b'] ++ hexDigits c.toNat ++ ['\x7d']
    else [c]

/-- A text in double quotes, with invisible and combining characters as escapes. -/
def quoted (s : String) : String :=
  String.ofList ('"' :: (s.toList.flatMap escapeVisibly ++ ['"']))

end Switchboard
