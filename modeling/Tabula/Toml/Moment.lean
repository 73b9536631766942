import Tabula.Toml.Line

/-!
# Dates and times of configuration documents

A date `1979-05-27`, a time `07:32:00.5`, or both with a letter `T` or a space between them.  Only a date with a
time may have an offset from universal time, `Z` or `+01:00`.  Every part has a fixed number of digits, the
fraction of a second apart.
-/

namespace Tabula.Toml

/-- A day of the calendar. -/
structure Date where
  year : Nat
  month : Nat
  day : Nat
deriving DecidableEq

/-- A time of the day.  The second `60` is for leap seconds. -/
structure Time where
  hour : Nat
  minute : Nat
  second : Nat
  nanosecond : Nat
deriving DecidableEq

/-- A date, a time, or both.  The offset is in minutes. -/
inductive Moment where
  | date (d : Date)
  | time (t : Time)
  | dateTime (d : Date) (t : Time) (offset : Option Int)
deriving DecidableEq

/-- Leap years have a day more in February. -/
def isLeapYear (year : Nat) : Bool :=
  year % 4 == 0 && (year % 100 != 0 || year % 400 == 0)

/-- The number of days of a month. -/
def daysOfMonth (year month : Nat) : Nat :=
  if month = 2 then if isLeapYear year then 29 else 28
  else if month = 4 ∨ month = 6 ∨ month = 9 ∨ month = 11 then 30
  else 31

/-- The date is one of the calendar, which starts with the year zero. -/
def Date.isValid (d : Date) : Bool :=
  1 ≤ d.month ∧ d.month ≤ 12 ∧ 1 ≤ d.day ∧ d.day ≤ daysOfMonth d.year d.month

/-- The hours and minutes are those of a clock. -/
def isClock (hour minute : Nat) : Bool :=
  hour < 24 ∧ minute < 60

/-- Read a number of exactly `n` digits. -/
def readFixed (n : Nat) (cs : List Char) : Option (Nat × List Char) :=
  let digits := cs.take n
  if digits.length = n ∧ digits.all Char.isDigit then some (digitsValue 10 digits, cs.drop n) else none

/-- Read one character. -/
def readChar (c : Char) : List Char → Option (List Char)
  | d :: cs => if d == c then some cs else none
  | [] => none

/-- Read a date. -/
def readDate (cs : List Char) : Option (Date × List Char) := do
  let (year, cs) ← readFixed 4 cs
  let (month, cs) ← readFixed 2 (← readChar '-' cs)
  let (day, cs) ← readFixed 2 (← readChar '-' cs)
  let date : Date := ⟨year, month, day⟩
  if date.isValid then some (date, cs) else none

/-- Read the fraction of a second, if there is one.  Digits after the ninth are left out. -/
def readNanosecond : List Char → Nat × List Char
  | '.' :: cs =>
      let digits := cs.takeWhile Char.isDigit
      if digits.isEmpty then (0, '.' :: cs)
      else (digitsValue 10 ((digits ++ List.replicate 9 '0').take 9), cs.drop digits.length)
  | cs => (0, cs)

/-- Read hours and minutes. -/
def readClock (cs : List Char) : Option ((Nat × Nat) × List Char) := do
  let (hour, cs) ← readFixed 2 cs
  let (minute, cs) ← readFixed 2 (← readChar ':' cs)
  if isClock hour minute then some ((hour, minute), cs) else none

/-- Read a time of the day. -/
def readTime (cs : List Char) : Option (Time × List Char) := do
  let ((hour, minute), cs) ← readClock cs
  let (second, cs) ← readFixed 2 (← readChar ':' cs)
  if second ≤ 60 then
    let (nanosecond, cs) := readNanosecond cs
    return (⟨hour, minute, second, nanosecond⟩, cs)
  else none

/-- Read an offset from universal time, if there is one. -/
def readOffset (cs : List Char) : Option Int × List Char :=
  match cs with
  | 'Z' :: rest | 'z' :: rest => (some 0, rest)
  | '+' :: rest =>
      match readClock rest with
      | some ((hour, minute), rest) => (some (60 * hour + minute), rest)
      | none => (none, cs)
  | '-' :: rest =>
      match readClock rest with
      | some ((hour, minute), rest) => (some (-(60 * hour + minute)), rest)
      | none => (none, cs)
  | _ => (none, cs)

/-- Read the time that may follow a date. -/
def readTimeOfDate : List Char → Option (Time × List Char)
  | c :: cs => if c == 'T' || c == 't' || c == ' ' then readTime cs else none
  | [] => none

/-- Read a date, a time, or both. -/
def readMoment (cs : List Char) : Option (Moment × List Char) :=
  match readDate cs with
  | none => (readTime cs).map fun r => (.time r.1, r.2)
  | some (d, cs) =>
      match readTimeOfDate cs with
      | none => some (.date d, cs)
      | some (t, cs) =>
          let (offset, cs) := readOffset cs
          some (.dateTime d t offset, cs)

end Tabula.Toml
