/-!
# Primitive types

The types without structure, numbers apart.
-/

namespace Tabula

/-- A type without structure. -/
inductive Primitive where
  | boolean
  | text
  | date
  | dateYM
  | time
  | dateTime
  | dateTimeZoned
deriving DecidableEq

namespace Primitive

/-- Every primitive type. -/
def all : List Primitive :=
  [boolean, text, date, dateYM, time, dateTime, dateTimeZoned]

/-- The written form. -/
def spelling : Primitive → String
  | boolean => "Boolean"
  | text => "Text"
  | date => "Date"
  | dateYM => "DateYM"
  | time => "Time"
  | dateTime => "DateTime"
  | dateTimeZoned => "DateTimeZoned"

/-- The type with this written form. -/
def ofSpelling? (s : String) : Option Primitive :=
  all.find? fun p => p.spelling == s

end Primitive

end Tabula
