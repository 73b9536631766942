import Tabula.Bindings
import Tabula.Scheme.Basic

/-!
# Terms

A term is a type in which numbered variables stand for types and units that are still sought.  Terms are
what inference works on; `Scheme.toTerm` makes one from a written type and the values of its variables.

A name that has no value becomes a tagged type without arguments.  Whether such a type is declared is left
open here.
-/

namespace Tabula

/-- A type that may mention numbered variables. -/
inductive Term where
  | var (id : VarId)
  | primitive (p : Primitive)
  | number (unit : UnitTerm)
  | tagged (name : Name) (args : List (Arg UnitTerm Term))
  | record (fields : List (Field Term)) (complete : Bool)
  | array (element : Term)
  | function (params : List Term) (result : Term)

/-- Values of variables that may mention numbered variables. -/
abbrev TermBindings := Bindings UnitTerm Term

namespace Term

instance : Inhabited Term :=
  ⟨primitive .boolean⟩

/-- The record with these fields, of which the later of two with the same name counts. -/
def recordOf (fields : List (Field Term)) (complete : Bool) : Term :=
  record (Field.ofList fields) complete

mutual

/-- Some type variable of the term satisfies `p`. -/
def anyVar (p : VarId → Bool) : Term → Bool
  | var id => p id
  | primitive _ => false
  | number _ => false
  | tagged _ args => anyVarArgs p args
  | record fields _ => anyVarFields p fields
  | array element => anyVar p element
  | function params result => anyVarParams p params || anyVar p result
termination_by structural t => t

/-- Some type variable of the arguments satisfies `p`. -/
def anyVarArgs (p : VarId → Bool) : List (Arg UnitTerm Term) → Bool
  | [] => false
  | .unit _ :: args => anyVarArgs p args
  | .type t :: args => anyVar p t || anyVarArgs p args
termination_by structural args => args

/-- Some type variable of the fields satisfies `p`. -/
def anyVarFields (p : VarId → Bool) : List (Field Term) → Bool
  | [] => false
  | ⟨_, t, _⟩ :: fields => anyVar p t || anyVarFields p fields
termination_by structural fields => fields

/-- Some type variable of the parameters satisfies `p`. -/
def anyVarParams (p : VarId → Bool) : List Term → Bool
  | [] => false
  | t :: params => anyVar p t || anyVarParams p params
termination_by structural params => params

end

mutual

/-- The number of levels of the term. -/
def depth : Term → Nat
  | var _ => 1
  | primitive _ => 1
  | number _ => 1
  | tagged _ args => depthArgs args + 1
  | record fields _ => depthFields fields + 1
  | array element => depth element + 1
  | function params result => max (depthParams params) (depth result) + 1
termination_by structural t => t

/-- The greatest number of levels among the arguments. -/
def depthArgs : List (Arg UnitTerm Term) → Nat
  | [] => 0
  | .unit _ :: args => depthArgs args
  | .type t :: args => max (depth t) (depthArgs args)
termination_by structural args => args

/-- The greatest number of levels among the fields. -/
def depthFields : List (Field Term) → Nat
  | [] => 0
  | ⟨_, t, _⟩ :: fields => max (depth t) (depthFields fields)
termination_by structural fields => fields

/-- The greatest number of levels among the parameters. -/
def depthParams : List Term → Nat
  | [] => 0
  | t :: params => max (depth t) (depthParams params)
termination_by structural params => params

end

end Term

/-- The value of a factor of a unit. -/
def TermBindings.atom (b : TermBindings) : Atom Name → Except BindingError UnitTerm
  | .var v => b.unit v
  | .unit u => .ok (.single (.unit u))

/-- Replace the variables of a unit by their values. -/
def UnitScheme.toTerm (b : TermBindings) (u : UnitScheme) : Except BindingError UnitTerm :=
  u.bindM b.atom

namespace Scheme

mutual

/-- Replace the variables of a written type by their values. -/
def toTerm (b : TermBindings) : Scheme → Except BindingError Term
  | primitive p => .ok (.primitive p)
  | number u => (UnitScheme.toTerm b u).map .number
  | ident name => (b.typeVar name).map fun value => value.getD (.tagged name [])
  | apply name args => (toTermArgs b args).map (.tagged name)
  | record fields complete => (toTermFields b fields).map (.record · complete)
  | array element => (toTerm b element).map .array
  | function params result => do
      let params ← toTermParams b params
      let result ← toTerm b result
      return .function params result
termination_by structural t => t

/-- Replace the variables of arguments, from left to right. -/
def toTermArgs (b : TermBindings) :
    List (Arg UnitScheme Scheme) → Except BindingError (List (Arg UnitTerm Term))
  | [] => .ok []
  | .unit u :: args => do
      let value ← UnitScheme.toTerm b u
      let values ← toTermArgs b args
      return .unit value :: values
  | .type t :: args => do
      let value ← toTerm b t
      let values ← toTermArgs b args
      return .type value :: values
termination_by structural args => args

/-- Replace the variables of fields, in order of their names. -/
def toTermFields (b : TermBindings) :
    List (Field Scheme) → Except BindingError (List (Field Term))
  | [] => .ok []
  | ⟨name, t, required⟩ :: fields => do
      let value ← toTerm b t
      let values ← toTermFields b fields
      return ⟨name, value, required⟩ :: values
termination_by structural fields => fields

/-- Replace the variables of parameters, from left to right. -/
def toTermParams (b : TermBindings) : List Scheme → Except BindingError (List Term)
  | [] => .ok []
  | t :: params => do
      let value ← toTerm b t
      let values ← toTermParams b params
      return value :: values
termination_by structural params => params

end

end Scheme

end Tabula
