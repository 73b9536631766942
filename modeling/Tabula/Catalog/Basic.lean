import Tabula.Catalog.TaggedType
import Tabula.Catalog.Units
import Tabula.Keyword

/-!
# Catalogs

A catalog holds what a written type can refer to: the declared units and the declared tagged types, in the
order of their declarations.  One tagged type with a single type parameter wraps the values of fields that
are not required.

A declaration either adds one entry at the end or is refused; nothing that was declared before changes.  Either
way it gives back the catalog.
-/

namespace Tabula

/-- The declared units and tagged types, and how suggestions are made in place of undeclared ones. -/
structure Catalog where
  entries : List (Entry TaggedType.name)
  /-- The type of a field that may be missing. -/
  wrapper : TaggedType
  units : UnitCatalog
  settings : Settings
  /-- How candidates for suggestions are scored. -/
  score : Suggestion.Score

namespace Catalog

/-- The declared tagged types, in the order of their declarations. -/
def types (c : Catalog) : List TaggedType :=
  c.entries.map Entry.value

/-- The tagged type that is declared from the start. -/
def optional : TaggedType where
  name := "Optional"
  params := [⟨.type, "a"⟩]
  tags := [⟨"None", none⟩, ⟨"Is", some (.ident "a")⟩]

/-- Nothing is declared but `Optional`. -/
def empty : Catalog where
  entries := [.named optional]
  wrapper := optional
  units := .empty
  settings := default
  score := Suggestion.score

/-- Use other units, with suggestions as in the catalog. -/
def withUnits (c : Catalog) (units : UnitCatalog) : Catalog :=
  { c with units := { units with settings := c.settings, score := c.score } }

/-- Use other settings, for units as well. -/
def withSettings (c : Catalog) (settings : Settings) : Catalog :=
  { c with settings := settings, units := { c.units with settings := settings } }

/-- Nothing is declared but `Optional` and the builtin units. -/
def builtin : Catalog :=
  empty.withUnits .builtin

/-- The tagged type declared under this name. -/
def find? (c : Catalog) (name : Name) : Option TaggedType :=
  Entry.find? name c.entries

/-- The tagged type under this name with these arguments, if there is one. -/
def lookup (c : Catalog) (name : Name) (args : List (Arg Measure GroundType)) :
    Except ArgumentError (Option GroundType) :=
  match c.find? name with
  | some d => (d.instantiate args).map some
  | none => .ok none

/-- The type of a field that may be missing. -/
def wrap (c : Catalog) (t : GroundType) : Except ArgumentError GroundType :=
  c.wrapper.instantiate [.type t]

/-- A name that can be declared as a type or as a type variable. -/
def checkName (text : String) : Except DeclarationError Name :=
  match Name.check text with
  | .error e => .error (.invalidName e)
  | .ok name => if name.isKeyword then .error (.keyword name) else .ok name

/-- A text that is accepted is the name itself. -/
theorem eq_of_checkName {text : String} {name : Name} (h : checkName text = .ok name) : name = text := by
  unfold checkName at h
  split at h
  · cases h
  · rename_i hcheck
    split at h <;> cases h
    exact Name.eq_of_check hcheck

/-- The parameters have names that can be declared, each name once. -/
def checkParams (type : Name) (seen : List Name) : List Param → Except DeclarationError Unit
  | [] => .ok ()
  | p :: params => do
      let _ ← checkName p.name
      if seen.contains p.name then throw (.duplicateParam p.name type)
      else checkParams type (p.name :: seen) params

/-- The tags have different names. -/
def checkTags (type : Name) (seen : List Name) : List Tag → Except DeclarationError Unit
  | [] => .ok ()
  | t :: tags =>
      if seen.contains t.name then .error (.duplicateTag t.name type)
      else checkTags type (t.name :: seen) tags

/-- The steps of the declaration of a tagged type. -/
def declareSteps (d : TaggedType) : DeclareM Catalog Unit :=
  match h : checkName d.name with
  | .error e => throw e
  | .ok name => do
      if ((← get).find? name).isSome then throw (.duplicateType name)
      MonadExcept.ofExcept (checkParams name [] d.params)
      MonadExcept.ofExcept (checkTags name [] d.tags)
      modify fun c => { c with entries := Entry.insert ⟨name, d, eq_of_checkName h⟩ c.entries }

/-- Declare a tagged type. -/
def declare (c : Catalog) (d : TaggedType) : Declared Catalog Unit :=
  .run (declareSteps d) c

/-- Declare a unit. -/
def declareUnit (c : Catalog) (name : String) (description : String) : Declared Catalog SingleUnit :=
  let declared := c.units.declare name description
  ⟨{ c with units := declared.catalog }, declared.result⟩

/-- The builtin types under their own names. -/
def builtinCandidates : List (Suggestion.Candidate Scheme) :=
  ⟨"Number", .number .one⟩ ::
    Primitive.all.map fun p => ⟨p.spelling, .primitive p⟩

/-- The builtin types under names that they have elsewhere. -/
def aliasCandidates : List (Suggestion.Candidate Scheme) :=
  [ ⟨"int", .number .one⟩,
    ⟨"integer", .number .one⟩,
    ⟨"float", .number .one⟩,
    ⟨"double", .number .one⟩,
    ⟨"num", .number .one⟩,
    ⟨"number", .number .one⟩,
    ⟨"bool", .primitive .boolean⟩,
    ⟨"boolean", .primitive .boolean⟩,
    ⟨"string", .primitive .text⟩,
    ⟨"str", .primitive .text⟩,
    ⟨"text", .primitive .text⟩,
    ⟨"date", .primitive .date⟩,
    ⟨"datetime", .primitive .dateTime⟩,
    ⟨"time", .primitive .time⟩ ]

/-- Types to use in place of an unknown name. -/
def suggestForName (c : Catalog) (name : Name) : List Scheme :=
  Suggestion.rank c.score c.settings name
    (builtinCandidates ++ (if c.settings.builtinAliases then aliasCandidates else []) ++
      c.entries.map fun e => ⟨e.key, .ident e.key⟩)

/-- Tagged types to use in place of an unknown one, with the same arguments. -/
def suggestForTagged (c : Catalog) (name : Name) (args : List (Arg UnitScheme Scheme)) :
    List Scheme :=
  Suggestion.rank c.score c.settings name (c.entries.map fun e => ⟨e.key, .apply e.key args⟩)

end Catalog

end Tabula
