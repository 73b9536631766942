import Tabula.Text.Unshown

/-!
# Quoted text

A text between double quotes on one line.  Quotes, backslashes and the usual control characters are written
with a backslash, and other characters that do not show by themselves by their numbers.
-/

namespace Tabula.Text

/-- Lowercase hexadecimal digits. -/
def hexadecimal (n : Nat) : String :=
  String.ofList (Nat.toDigits 16 n)

/-- How a character is written between double quotes. -/
def quotedChar (c : Char) : String :=
  if c == '\x22' then "\\\""
  else if c == '\\' then "\\\\"
  else if c == '\n' then "\\n"
  else if c == '\t' then "\\t"
  else if c == '\r' then "\\r"
  else if c.toNat = 0 then "\\0"
  else if isUnshown c then "\\u\x7b" ++ hexadecimal c.toNat ++ "\x7d"
  else c.toString

/-- The text between double quotes. -/
def quoted (text : String) : String :=
  "\"" ++ String.join (text.toList.map quotedChar) ++ "\""

end Tabula.Text
