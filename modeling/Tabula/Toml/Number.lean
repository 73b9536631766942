import Tabula.Decimal
import Tabula.Toml.Value

/-!
# Numbers of configuration documents

Integers in base ten, sixteen, eight and two, and floating-point numbers.  Single underscores may stand between
digits.
-/

namespace Tabula.Toml

/-- Digits after the first one; single underscores may stand between digits. -/
def readMoreDigits (isDigit : Char → Bool) : Reader (List Char)
  | '_' :: d :: cs =>
      if isDigit d then (readMoreDigits isDigit cs).map fun r => (d :: r.1, r.2) else none
  | '_' :: [] => none
  | d :: cs =>
      if isDigit d then (readMoreDigits isDigit cs).map fun r => (d :: r.1, r.2)
      else some ([], d :: cs)
  | [] => some ([], [])

/-- One or more digits. -/
def readDigits (isDigit : Char → Bool) : Reader (List Char)
  | d :: cs =>
      if isDigit d then (readMoreDigits isDigit cs).map fun r => (d :: r.1, r.2) else none
  | [] => none

/-- The digits of a decimal integer, which has no zero in front of other digits. -/
def readWhole : Reader (List Char)
  | '0' :: cs => some (['0'], cs)
  | cs => readDigits Char.isDigit cs

/-- Integers have 64 bits. -/
def integer? (n : Int) : Option Value :=
  if -9223372036854775808 ≤ n ∧ n ≤ 9223372036854775807 then some (.integer n) else none

/-- Read the digits of an integer in a base other than ten. -/
def readRadix (base : Nat) (cs : List Char) : Option (Value × List Char) := do
  let isDigit := fun c => ((hexValue? c).getD base) < base
  let (digits, cs) ← readDigits isDigit cs
  return (← integer? (digitsValue base digits), cs)

/-- Read a sign, if there is one: whether it is a minus. -/
def readSign : List Char → Bool × List Char
  | '-' :: cs => (true, cs)
  | '+' :: cs => (false, cs)
  | cs => (false, cs)

/-- Read the digits after a decimal point, if there is one. -/
def readFraction : Reader (Option (List Char))
  | '.' :: cs => (readDigits Char.isDigit cs).map fun r => (some r.1, r.2)
  | cs => some (none, cs)

/-- Read an exponent, if there is one. -/
def readExponent : Reader (Option Int)
  | c :: cs =>
      if c == 'e' || c == 'E' then do
        let (negative, cs) := readSign cs
        let (digits, cs) ← readDigits Char.isDigit cs
        let n : Int := digitsValue 10 digits
        return (some (if negative then -n else n), cs)
      else some (none, c :: cs)
  | [] => some (none, [])

/-- A floating-point number.  One that is too large is refused unless it is negative. -/
def float? (negative : Bool) (d : Decimal) : Option Value :=
  let x := d.toFloat
  if negative then some (.float (-x))
  else if x.isInf then none
  else some (.float x)

/-- Read a decimal number without its sign. -/
def readDecimal (negative : Bool) (cs : List Char) : Option (Value × List Char) := do
  let (whole, cs) ← readWhole cs
  let (fraction, cs) ← readFraction cs
  let (exponent, cs) ← readExponent cs
  if fraction.isNone && exponent.isNone then
    let n : Int := digitsValue 10 whole
    return (← integer? (if negative then -n else n), cs)
  else
    let places := fraction.getD []
    return (← float? negative ⟨digitsValue 10 (whole ++ places), exponent.getD 0 - places.length⟩, cs)

/-- Read a number. -/
def readNumber : Reader Value
  | '0' :: 'x' :: cs => readRadix 16 cs
  | '0' :: 'o' :: cs => readRadix 8 cs
  | '0' :: 'b' :: cs => readRadix 2 cs
  | cs =>
      let (negative, cs) := readSign cs
      match cs with
      | 'i' :: 'n' :: 'f' :: cs =>
          some (.float (if negative then -(1.0 / 0.0) else 1.0 / 0.0), cs)
      | 'n' :: 'a' :: 'n' :: cs => some (.float (0.0 / 0.0), cs)
      | cs => readDecimal negative cs

end Tabula.Toml
