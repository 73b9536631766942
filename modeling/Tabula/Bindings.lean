import Tabula.Ascending
import Tabula.Kind
import Tabula.Name

/-!
# Bindings of variables

Bindings give names a value, a unit or a type, at most one for each name.  They are listed in ascending
order of the names.

Looking up a variable takes its use into account.  A name that is used as a type need not be a variable
at all, so an unbound one is no error; a unit variable has to be bound.
-/

namespace Tabula

/-- Values of variables, each a unit or a type. -/
structure Bindings (υ τ : Type) where
  entries : List (Name × Arg υ τ)
  ordered : Ascending Prod.fst entries

/-- A variable is not bound in the way it is used. -/
inductive BindingError where
  /-- The unit variable has no value. -/
  | unboundUnit (name : Name)
  /-- The variable has a value of the other kind than the one it is used as. -/
  | wrongKind (name : Name) (used : Kind)
deriving DecidableEq

/-- The text of the error by itself. -/
def BindingError.detail : BindingError → String
  | unboundUnit name => "unit variable " ++ name.quoted ++ " is not bound"
  | wrongKind name .unit => "variable " ++ name.quoted ++ " is bound to a type, but it's used as a unit"
  | wrongKind name .type => "variable " ++ name.quoted ++ " is bound to a unit, but it's used as a type"

/-- Binding errors are faults of the caller and not of the person who wrote the type. -/
def BindingError.message (e : BindingError) : String :=
  "internal error: " ++ e.detail

namespace Bindings

variable {υ τ : Type}

/-- No variable is bound. -/
def empty : Bindings υ τ :=
  ⟨[], Ascending.nil _⟩

instance : Inhabited (Bindings υ τ) :=
  ⟨empty⟩

/-- Bind a name, in place of any value it had. -/
def insert (b : Bindings υ τ) (name : Name) (value : Arg υ τ) : Bindings υ τ :=
  ⟨Ascending.insert Prod.fst (name, value) b.entries, Ascending.insert_ascending _ _ b.ordered⟩

/-- The value of a name. -/
def get? (b : Bindings υ τ) (name : Name) : Option (Arg υ τ) :=
  (Ascending.find? Prod.fst name b.entries).map Prod.snd

/-- The value of a unit variable. -/
def unit (b : Bindings υ τ) (name : Name) : Except BindingError υ :=
  match b.get? name with
  | some (.unit u) => .ok u
  | some (.type _) => .error (.wrongKind name .unit)
  | none => .error (.unboundUnit name)

/-- The value of a name that is used as a type, if it is a variable. -/
def typeVar (b : Bindings υ τ) (name : Name) : Except BindingError (Option τ) :=
  match b.get? name with
  | some (.type t) => .ok (some t)
  | some (.unit _) => .error (.wrongKind name .type)
  | none => .ok none

/-- How many names are bound. -/
def size (b : Bindings υ τ) : Nat :=
  b.entries.length

end Bindings

end Tabula
