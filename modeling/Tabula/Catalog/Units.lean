import Tabula.Catalog.DeclarationError
import Tabula.Catalog.Entry
import Tabula.Measure
import Tabula.Suggestion.Ranking

/-!
# Declared units

A unit catalog lists the declared units in the order of their declarations.  No name is declared twice.

A declaration gives back the catalog together with the unit, or with the error if it is refused.
-/

namespace Tabula

/-- The declared units, and how suggestions are made in place of undeclared ones. -/
structure UnitCatalog where
  entries : List (Entry SingleUnit.name)
  settings : Settings
  /-- How candidates for suggestions are scored. -/
  score : Suggestion.Score

/-- A unit is not declared; `suggestions` are names of declared units. -/
structure UnknownUnit where
  name : Name
  suggestions : List Name
deriving DecidableEq

/-- What is told to the user. -/
def UnknownUnit.message (e : UnknownUnit) : String :=
  "unknown unit " ++ e.name.quoted

namespace UnitCatalog

/-- The declared units, in the order of their declarations. -/
def units (c : UnitCatalog) : List SingleUnit :=
  c.entries.map Entry.value

/-- No unit is declared. -/
def empty : UnitCatalog :=
  ⟨[], default, Suggestion.score⟩

/-- The units that are declared from the start. -/
def builtinUnits : List SingleUnit :=
  [ ⟨"m", "metre"⟩,
    ⟨"s", "second"⟩,
    ⟨"kg", "kilogram"⟩,
    ⟨"A", "ampere"⟩,
    ⟨"K", "kelvin"⟩,
    ⟨"mol", "mole"⟩,
    ⟨"cd", "candela"⟩,
    ⟨"g", "gram"⟩,
    ⟨"km", "kilometre"⟩,
    ⟨"min", "minute"⟩,
    ⟨"h", "hour"⟩,
    ⟨"USD", "United States dollar"⟩,
    ⟨"EUR", "euro"⟩ ]

/-- The catalog with the builtin units only. -/
def builtin : UnitCatalog :=
  { empty with entries := builtinUnits.map .named }

/-- The unit declared under this name. -/
def find? (c : UnitCatalog) (name : Name) : Option SingleUnit :=
  Entry.find? name c.entries

/-- The steps of the declaration of a unit. -/
def declareSteps (name : String) (description : String) : DeclareM UnitCatalog SingleUnit := do
  let name ← MonadExcept.ofExcept ((Name.check name).mapError .invalidName)
  if ((← get).find? name).isSome then throw (.duplicateUnit name)
  let unit : SingleUnit := ⟨name, description⟩
  modify fun c => { c with entries := Entry.insert ⟨name, unit, rfl⟩ c.entries }
  return unit

/-- Declare a unit. -/
def declare (c : UnitCatalog) (name : String) (description : String) : Declared UnitCatalog SingleUnit :=
  .run (declareSteps name description) c

/-- The names of declared units that resemble this one. -/
def suggest (c : UnitCatalog) (name : Name) : List Name :=
  Suggestion.rank c.score c.settings name (c.units.map fun u => ⟨u.name, u.name⟩)

/-- The unit declared under this name, or suggestions in its place. -/
def get (c : UnitCatalog) (name : Name) : Except UnknownUnit SingleUnit :=
  match c.find? name with
  | some u => .ok u
  | none => .error ⟨name, c.suggest name⟩

end UnitCatalog

end Tabula
