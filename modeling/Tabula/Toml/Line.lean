/-!
# Lines of configuration documents

What the readers of all parts of a document share: blanks, comments, ends of lines and digits.

Each reader takes the characters that are left and gives back those that follow what it has read.  It says
nothing about the place or the cause of an error, only that there is one.
-/

namespace Tabula.Toml

/-- Read something from the front of a text. -/
abbrev Reader (α : Type) := List Char → Option (α × List Char)

/-- Space and tab separate parts of a line. -/
def isGap (c : Char) : Bool :=
  c == ' ' || c == '\t'

/-- Leave out spaces and tabs. -/
def skipGap (cs : List Char) : List Char :=
  cs.dropWhile isGap

/-- A character that may stand in a comment or between quotes. -/
def isPrintable (c : Char) : Bool :=
  c == '\t' || (0x20 ≤ c.toNat && c.toNat ≠ 0x7F)

/-- Leave out a comment, if there is one. -/
def skipComment : List Char → List Char
  | '#' :: cs => cs.dropWhile isPrintable
  | cs => cs

/-- The end of a line: a line feed, with or without a carriage return before it. -/
def readNewline : List Char → Option (List Char)
  | '\n' :: cs => some cs
  | '\r' :: '\n' :: cs => some cs
  | _ => none

/-- What may stand between a statement and the end of its line, or of the text. -/
def finishLine (cs : List Char) : Option (List Char) :=
  match skipComment (skipGap cs) with
  | [] => some []
  | cs => readNewline cs

/-- Leave out blanks, comments and ends of lines, at most `lines` of these. -/
def skipLines : Nat → List Char → Option (List Char)
  | 0, _ => none
  | lines + 1, cs =>
      let cs := skipComment (skipGap cs)
      match readNewline cs with
      | some rest => skipLines lines rest
      | none => some cs

/-- Leave out blanks, comments and ends of lines. -/
def skipBlank (cs : List Char) : Option (List Char) :=
  skipLines (cs.length + 1) cs

/-- The value of a hexadecimal digit. -/
def hexValue? (c : Char) : Option Nat :=
  if c.isDigit then some (c.toNat - '0'.toNat)
  else if 'a' ≤ c ∧ c ≤ 'f' then some (c.toNat - 'a'.toNat + 10)
  else if 'A' ≤ c ∧ c ≤ 'F' then some (c.toNat - 'A'.toNat + 10)
  else none

/-- The value of digits in a base up to sixteen. -/
def digitsValue (base : Nat) (digits : List Char) : Nat :=
  digits.foldl (fun n d => base * n + (hexValue? d).getD 0) 0

theorem length_of_readNewline {cs rest : List Char} (h : readNewline cs = some rest) :
    rest.length < cs.length := by
  unfold readNewline at h
  split at h
  · cases h
    simp
  · cases h
    simp only [List.length_cons]
    omega
  · cases h

theorem length_skipGap (cs : List Char) : (skipGap cs).length ≤ cs.length :=
  (List.dropWhile_sublist _).length_le

end Tabula.Toml
