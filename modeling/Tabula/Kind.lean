/-!
# Kinds of arguments

A tagged type takes units and types as arguments, and a variable stands for one or the other.
-/

namespace Tabula

/-- What an argument or a variable stands for. -/
inductive Kind where
  | unit
  | type
deriving DecidableEq

/-- The word for a kind in messages. -/
def Kind.word : Kind → String
  | unit => "unit"
  | type => "type"

/-- A unit or a type, as an argument or as the value of a variable. -/
inductive Arg (υ τ : Type) where
  | unit (u : υ)
  | type (t : τ)

/-- What the argument is. -/
def Arg.kind {υ τ : Type} : Arg υ τ → Kind
  | .unit _ => .unit
  | .type _ => .type

end Tabula
