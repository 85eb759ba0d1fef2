import Dataflow.Text.Hidden

/-!
# Quoted text

A string constant is printed between double quotes. Quotes, backslashes and the
common controls are written as two characters; a character that does not print
by itself is written by its number, so what is printed always shows.
-/

namespace Dataflow.Text

/-- The character's number in lower-case hexadecimal between braces, after a
backslash and `u`. -/
def byNumber (c : Char) : String :=
  "\\u\x7b" ++ String.ofList (Nat.toDigits 16 c.toNat) ++ "\x7d"

/-- One character as it stands inside quotes. -/
def quotedChar (c : Char) : String :=
  if c = '\x00' then "\\0"
  else if c = '\t' then "\\t"
  else if c = '\r' then "\\r"
  else if c = '\n' then "\\n"
  else if c = '\\' then "\\\\"
  else if c = '\x22' then "\\\x22"
  else if isHidden c then byNumber c
  else c.toString

/-- A string between double quotes, with its awkward characters escaped. -/
def quoted (s : String) : String :=
  "\x22" ++ String.join (s.toList.map quotedChar) ++ "\x22"

end Dataflow.Text
