/-!
# Names

A name labels a type, a unit, a variable, a record field or a tag.  Any text can be used as a label,
but only some labels can be written in a type: an ASCII letter or an underscore, then ASCII letters,
digits and underscores.  `Name.isValid` decides which; `Name.check` turns the decision into an error.

Names are compared as texts, character by character.
-/

namespace Tabula

/-- The label of a type, a unit, a variable, a record field or a tag. -/
abbrev Name := String

/-- The text is not a name that can be written. -/
structure InvalidName where
  text : String
deriving DecidableEq

namespace Name

/-- A name starts with an ASCII letter or an underscore. -/
def isHead (c : Char) : Bool :=
  c == '_' || c.isAlpha

/-- After its first character a name may also hold ASCII digits. -/
def isTail (c : Char) : Bool :=
  c == '_' || c.isAlphanum

/-- A name that can be written. -/
def isValid (n : Name) : Bool :=
  match n.toList with
  | [] => false
  | c :: cs => isHead c && cs.all isTail

/-- The name between backquotes, without any escaping. -/
def quoted (n : Name) : String :=
  "`" ++ n ++ "`"

/-- Accept exactly the names that can be written. -/
def check (text : String) : Except InvalidName Name :=
  if isValid text then .ok text else .error ⟨text⟩

/-- A text that is accepted is the name itself. -/
theorem eq_of_check {text : String} {n : Name} (h : check text = .ok n) : n = text := by
  unfold check at h
  split at h <;> cases h
  rfl

/-- The names in ascending order, repeated ones included. -/
def sort (names : List Name) : List Name :=
  names.mergeSort fun a b => (compare a b).isLE

/-- How many different names are in the list. -/
def countDistinct (names : List Name) : Nat :=
  names.eraseDups.length

end Name

/-- What is told to the user about a text that is no name. -/
def InvalidName.message (e : InvalidName) : String :=
  Name.quoted e.text ++ " is not a valid identifier"

end Tabula
