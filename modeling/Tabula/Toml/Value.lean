import Tabula.Toml.Moment

/-!
# Values of configuration documents

The values of the TOML format: numbers, truth values, texts, dates and times, lists and tables.

A table remembers how it came about, because this decides who may add to it.  A table that was opened by a
header, or written in braces, is closed to dotted keys; a table that dotted keys made cannot be opened by a
header.
-/

namespace Tabula.Toml

/-- A value to the right of an equals sign. -/
inductive Value where
  | integer (n : Int)
  | float (x : Float)
  | boolean (b : Bool)
  | text (s : String)
  | moment (m : Moment)
  | array (items : List Value)
  | table (entries : List (String × Value))

/-- How a table came about. -/
inductive Origin where
  /-- A header opened it. -/
  | header
  /-- The header of a table inside it implied it. -/
  | implied
  /-- A dotted key made it. -/
  | dotted
deriving DecidableEq

/-- What stands under a key. -/
inductive Node where
  | value (v : Value)
  | table (origin : Origin) (entries : List (String × Node))

/-- The contents of a table. -/
abbrev Entries := List (String × Node)

namespace Entries

/-- Put `node` under a key that is there already. -/
def update (entries : Entries) (key : String) (node : Node) : Entries :=
  entries.map fun e => if e.1 == key then (key, node) else e

/-- Put a value under a dotted key.  The key must be new, and the tables on its way must be new or made by
dotted keys. -/
def assign (v : Value) : List String → Entries → Option Entries
  | [], _ => none
  | [key], entries =>
      match entries.lookup key with
      | none => some (entries ++ [(key, .value v)])
      | some _ => none
  | key :: path, entries =>
      match entries.lookup key with
      | none => do return entries ++ [(key, .table .dotted (← assign v path []))]
      | some (.table .dotted inner) => do
          return update entries key (.table .dotted (← assign v path inner))
      | some _ => none

/-- Open the table with this path by a header.  It must be new or implied. -/
def openTable : List String → Entries → Option Entries
  | [], _ => none
  | [key], entries =>
      match entries.lookup key with
      | none => some (entries ++ [(key, .table .header [])])
      | some (.table .implied inner) => some (update entries key (.table .header inner))
      | some _ => none
  | key :: path, entries =>
      match entries.lookup key with
      | none => do return entries ++ [(key, .table .implied (← openTable path []))]
      | some (.table origin inner) => do
          return update entries key (.table origin (← openTable path inner))
      | some (.value _) => none

/-- Change the table that was opened with this path. -/
def modify (f : Entries → Option Entries) : List String → Entries → Option Entries
  | [], entries => f entries
  | key :: path, entries =>
      match entries.lookup key with
      | some (.table origin inner) => do
          return update entries key (.table origin (← modify f path inner))
      | _ => none

end Entries

mutual

/-- A node as a value, however its tables came about. -/
def Node.toValue : Node → Value
  | .value v => v
  | .table _ entries => .table (toValues entries)
termination_by structural n => n

/-- The contents of a table as values. -/
def toValues : List (String × Node) → List (String × Value)
  | [] => []
  | (key, node) :: entries => (key, node.toValue) :: toValues entries
termination_by structural entries => entries

end

end Tabula.Toml
