import Tabula.Name

/-!
# Keywords

The names with a fixed meaning in written types.  A keyword can still name a record field, a unit or
a unit variable, but neither a tagged type nor a type variable.

There are three tables of keywords: the words that are read as keywords, the names that keywords stand for
where a name is expected, and the names that cannot be declared.
-/

namespace Tabula

/-- The reserved names.  `dateYMD` is a second spelling of `date`. -/
inductive Keyword where
  | boolean
  | text
  | number
  | date
  | dateYMD
  | dateYM
  | time
  | dateTime
  | dateTimeZoned
deriving DecidableEq

namespace Keyword

/-- Every keyword. -/
def all : List Keyword :=
  [boolean, text, number, date, dateYMD, dateYM, time, dateTime, dateTimeZoned]

/-- The word that is read as the keyword. -/
def spelling : Keyword → Name
  | boolean => "Boolean"
  | text => "Text"
  | number => "Number"
  | date => "Date"
  | dateYMD => "DateYMD"
  | dateYM => "DateYM"
  | time => "Time"
  | dateTime => "DateTime"
  | dateTimeZoned => "DateTimeZoned"

/-- The name that the keyword stands for where a name is expected. -/
def asName : Keyword → Name
  | boolean => "Boolean"
  | text => "Text"
  | number => "Number"
  | date => "Date"
  | dateYMD => "DateYMD"
  | dateYM => "DateYM"
  | time => "Time"
  | dateTime => "DateTime"
  | dateTimeZoned => "DateTimeZoned"

/-- The keyword that the word is read as. -/
def ofName? (n : Name) : Option Keyword :=
  all.find? fun k => k.spelling == n

/-- A name is recognised as the keyword `k` exactly when it is the spelling of `k`. -/
theorem ofName?_eq_some_iff {n : Name} {k : Keyword} :
    ofName? n = some k ↔ k.spelling = n := by
  constructor
  · intro h
    simpa using List.find?_some h
  · rintro rfl
    cases k <;> decide

end Keyword

namespace Name

/-- The names that cannot be declared. -/
def keywords : List Name :=
  [ "Boolean",
    "Text",
    "Number",
    "Date",
    "DateYMD",
    "DateYM",
    "Time",
    "DateTime",
    "DateTimeZoned" ]

/-- The name is reserved. -/
def isKeyword (n : Name) : Bool :=
  keywords.contains n

end Name

end Tabula
