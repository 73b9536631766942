/-!
# Decimal notation of floating-point numbers

A floating-point number is written with the fewest digits that read back as the same number, and of those
with the ones nearest to it.  The notation is positional throughout: it never has an exponent.

A finite number is `m * 2^q`.  The reals that read back as this number form an interval around it, which
reaches half way to its neighbours and contains its ends exactly if `m` is even.  For one digit, two digits
and so on, the two decimals next to the number are tested against the interval.
-/

namespace Tabula

/-- The decimal `digits * 10^exponent`. -/
structure Decimal where
  digits : Nat
  exponent : Int
deriving DecidableEq

namespace Decimal

/-- A nonnegative number `significand * 2^exponent`.  Below a power of two the numbers lie twice as close as
above, and `narrow` tells that the number is such a power. -/
structure Binary where
  significand : Nat
  exponent : Int
  narrow : Bool
deriving DecidableEq

/-- The finite number with this encoding of 63 bits: 11 for the scale, 52 for the fraction. -/
def Binary.ofBits (bits : Nat) : Binary :=
  let fraction : Nat := bits % 4503599627370496
  let scale : Nat := bits / 4503599627370496
  if scale = 0 then ⟨fraction, -1074, false⟩
  else ⟨4503599627370496 + fraction, (scale : Int) - 1075, fraction = 0 ∧ 1 < scale⟩

/-- A power of two; a negative exponent counts as zero. -/
def two (e : Int) : Nat :=
  Nat.pow 2 e.toNat

/-- A power of ten; a negative exponent counts as zero. -/
def ten (e : Int) : Nat :=
  Nat.pow 10 e.toNat

/-- The number of digits of a positive number. -/
def length (n : Nat) : Nat :=
  (Nat.toDigits 10 n).length

/-- Compare `a * 2^p` with `b * 10^e` without rounding. -/
def compareScaled (a : Nat) (p : Int) (b : Nat) (e : Int) : Ordering :=
  compare (a * two p * ten (-e)) (b * ten e * two (-p))

/-- The decimal lies in the interval of the reals that read back as the number. -/
def readsBack (d : Decimal) (x : Binary) : Bool :=
  let below := 4 * x.significand - if x.narrow then 1 else 2
  let above := 4 * x.significand + 2
  let inside := fun (o : Ordering) => if x.significand % 2 = 0 then o.isLE else o.isLT
  inside (compareScaled below (x.exponent - 2) d.digits d.exponent) &&
    inside (compareScaled above (x.exponent - 2) d.digits d.exponent).swap

/-- The power of ten up to which a positive number reaches: `10^(k-1) ≤ x < 10^k`. -/
def magnitude (x : Binary) : Int :=
  let num := x.significand * two x.exponent
  let den := two (-x.exponent)
  if den ≤ num then (length (num / den) : Int)
  else
    let k : Int := length (den / num)
    if den ≤ num * ten (k - 1) then 2 - k else 1 - k

/-- The decimal with `n` digits that reads back as the positive number `x` and is nearest to it.  Of two at
the same distance it is the larger one. -/
def nearest? (x : Binary) (k : Int) (n : Nat) : Option Decimal :=
  let e := k - n
  let num := x.significand * two x.exponent * ten (-e)
  let den := two (-x.exponent) * ten e
  let low : Decimal := ⟨num / den, e⟩
  let high : Decimal := ⟨num / den + 1, e⟩
  if low.readsBack x then
    if high.readsBack x ∧ den ≤ 2 * (num % den) then some high else some low
  else if high.readsBack x then some high
  else none

/-- The shortest decimal that reads back as the positive number `x`.  Seventeen digits are always enough. -/
def shortest (x : Binary) : Decimal :=
  let k := magnitude x
  ((List.range 17).findSome? fun n => nearest? x k (n + 1)).getD ⟨x.significand, x.exponent⟩

/-- Positional notation, without zeros at the end of a fraction. -/
def text (d : Decimal) : String :=
  let digits := Nat.toDigits 10 d.digits
  if 0 ≤ d.exponent then String.ofList (digits ++ List.replicate d.exponent.toNat '0')
  else
    let places := (-d.exponent).toNat
    let padded := List.replicate (places + 1 - digits.length) '0' ++ digits
    let whole := padded.take (padded.length - places)
    let fraction := (padded.drop (padded.length - places)).reverse.dropWhile (· == '0') |>.reverse
    if fraction.isEmpty then String.ofList whole
    else String.ofList (whole ++ '.' :: fraction)

/-- The text of a floating-point number. -/
def ofFloat (x : Float) : String :=
  let bits := x.toBits.toNat
  let sign := if bits < 9223372036854775808 then "" else "-"
  let magnitude := bits % 9223372036854775808
  if x.isNaN then "NaN"
  else if x.isInf then sign ++ "inf"
  else if magnitude = 0 then sign ++ "0"
  else sign ++ (shortest (Binary.ofBits magnitude)).text

/-- The floating-point number nearest to a decimal. -/
def toFloat (d : Decimal) : Float :=
  let reach : Int := d.exponent + length d.digits
  if d.digits = 0 ∨ reach < -400 then 0.0
  else if 400 < reach then 1.0 / 0.0
  else Float.ofScientific d.digits (d.exponent < 0) d.exponent.natAbs

end Decimal

end Tabula
