import Tabula.Name

/-!
# Entries of a catalog

What is declared is kept in the order of the declarations, each value under the key by which it is found.  An
entry carries the proof that its key is the name of its value.
-/

namespace Tabula

/-- A value under its key, which is its name. -/
structure Entry {α : Type} (name : α → Name) where
  key : Name
  value : α
  key_eq : key = name value

namespace Entry

variable {α : Type} {name : α → Name}

/-- A value under its own name. -/
def named (a : α) : Entry name :=
  ⟨name a, a, rfl⟩

/-- The value under a key. -/
def find? (key : Name) (entries : List (Entry name)) : Option α :=
  (entries.find? fun e => e.key == key).map value

/-- Put an entry in the place of the one with the same key, or at the end if there is none. -/
def insert (entry : Entry name) : List (Entry name) → List (Entry name)
  | [] => [entry]
  | e :: entries => if e.key == entry.key then entry :: entries else e :: insert entry entries

end Entry

end Tabula
