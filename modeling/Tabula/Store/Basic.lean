import Tabula.Catalog.TaggedType
import Tabula.Term.Basic

/-!
# Stores of variables

A store numbers the variables whose values are sought, types and units apart, and holds the values that were
found.  A value may mention further variables, so a store stands for the substitution that follows its
values to the end.

Following values ends because no variable is reached from its own value.  The functions that follow values
take a bound on the number of steps; the number of variables is enough, since every step leaves one variable
behind for good.
-/

namespace Tabula

/-- The values of the variables; a variable without a value is still sought. -/
structure Store where
  types : Array (Option Term)
  units : Array (Option UnitTerm)

namespace Store

/-- There are no variables. -/
def empty : Store :=
  ⟨#[], #[]⟩

instance : Inhabited Store :=
  ⟨empty⟩

/-- The value of a type variable. -/
def typeValue? (s : Store) (id : VarId) : Option Term :=
  (s.types[id]?).join

/-- The value of a unit variable. -/
def unitValue? (s : Store) (id : VarId) : Option UnitTerm :=
  (s.units[id]?).join

/-- A new type variable. -/
def freshType (s : Store) : VarId × Store :=
  (s.types.size, { s with types := s.types.push none })

/-- A new unit variable. -/
def freshUnit (s : Store) : VarId × Store :=
  (s.units.size, { s with units := s.units.push none })

/-- Give a type variable a value.  To make it its own value changes nothing. -/
def assignType (s : Store) (id : VarId) (t : Term) : Store :=
  match t with
  | .var other =>
      if other = id then s else { s with types := s.types.setIfInBounds id (some t) }
  | _ => { s with types := s.types.setIfInBounds id (some t) }

/-- Give a unit variable a value. -/
def assignUnit (s : Store) (id : VarId) (u : UnitTerm) : Store :=
  { s with units := s.units.setIfInBounds id (some u) }

/-- A new variable for each parameter, bound to its name.  If a name occurs twice, it is bound to the last of
its variables. -/
def bindFresh (s : Store) (b : TermBindings) : List Param → TermBindings × Store
  | [] => (b, s)
  | ⟨.type, name⟩ :: params =>
      let (id, s) := s.freshType
      s.bindFresh (b.insert name (.type (.var id))) params
  | ⟨.unit, name⟩ :: params =>
      let (id, s) := s.freshUnit
      s.bindFresh (b.insert name (.unit (.single (.var id)))) params

/-- Follow a type variable through at most `steps` values, as long as they are variables. -/
def rootWithin (s : Store) : Nat → VarId → Term
  | 0, id => .var id
  | steps + 1, id =>
      match s.typeValue? id with
      | none => .var id
      | some (.var other) => s.rootWithin steps other
      | some t => t

/-- The end of the chain of variables that starts here: a variable without a value, or another term. -/
def root (s : Store) (id : VarId) : Term :=
  s.rootWithin s.types.size id

/-- A term whose outermost variable, if it is one, was followed to its end. -/
def walk (s : Store) : Term → Term
  | .var id => s.root id
  | t => t

/-- The variable occurs in the term, or in a value that is reached in at most `steps` steps. -/
def occursWithin (s : Store) (id : VarId) : Nat → Term → Bool
  | 0, t => t.anyVar (· == id)
  | steps + 1, t =>
      t.anyVar fun other =>
        other == id ||
          match s.typeValue? other with
          | none => false
          | some value => s.occursWithin id steps value

/-- The variable occurs in the term when values are followed to the end. -/
def occurs (s : Store) (id : VarId) (t : Term) : Bool :=
  s.occursWithin id s.types.size t

/-- Replace unit variables by their values, in at most `steps` steps. -/
def resolveWithin (s : Store) : Nat → UnitTerm → UnitTerm
  | 0, u => u
  | steps + 1, u =>
      u.bind fun atom =>
        match atom with
        | .unit _ => .single atom
        | .var id =>
            match s.unitValue? id with
            | none => .single atom
            | some value => s.resolveWithin steps value

/-- Replace unit variables by their values until only variables without a value are left. -/
def resolve (s : Store) (u : UnitTerm) : UnitTerm :=
  s.resolveWithin s.units.size u

end Store

end Tabula
