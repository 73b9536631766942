import Tabula.Field
import Tabula.Kind
import Tabula.Measure
import Tabula.Primitive

/-!
# Types as they are written

A `Scheme` is a type as a person writes it.  It may use names that stand for type variables or tagged
types, unit variables, optional fields, and records that leave further fields open.

Schemes are compared with `==`, which ignores the descriptions of units and nothing else.
-/

namespace Tabula

/-- A type as it is written. -/
inductive Scheme where
  | primitive (p : Primitive)
  /-- Numbers measured in a unit. -/
  | number (unit : UnitScheme)
  /-- A type variable, or a tagged type without arguments. -/
  | ident (name : Name)
  /-- A tagged type applied to arguments. -/
  | apply (name : Name) (args : List (Arg UnitScheme Scheme))
  /-- A record; if it is not complete, it may have further fields. -/
  | record (fields : List (Field Scheme)) (complete : Bool)
  | array (element : Scheme)
  | function (params : List Scheme) (result : Scheme)

namespace Scheme

mutual

/-- Equality up to the descriptions of units. -/
def beq : Scheme → Scheme → Bool
  | primitive p, primitive q => p == q
  | number u, number v => u == v
  | ident n, ident m => n == m
  | apply n as, apply m bs => n == m && beqArgs as bs
  | record fs c, record gs d => beqFields fs gs && c == d
  | array s, array t => beq s t
  | function ps r, function qs s => beqParams ps qs && beq r s
  | _, _ => false
termination_by structural t => t

/-- Equality of argument lists. -/
def beqArgs : List (Arg UnitScheme Scheme) → List (Arg UnitScheme Scheme) → Bool
  | [], [] => true
  | .unit u :: as, .unit v :: bs => u == v && beqArgs as bs
  | .type s :: as, .type t :: bs => beq s t && beqArgs as bs
  | _, _ => false
termination_by structural as => as

/-- Equality of field lists. -/
def beqFields : List (Field Scheme) → List (Field Scheme) → Bool
  | [], [] => true
  | ⟨n, s, r⟩ :: fs, ⟨m, t, q⟩ :: gs => n == m && beq s t && r == q && beqFields fs gs
  | _, _ => false
termination_by structural fs => fs

/-- Equality of parameter lists. -/
def beqParams : List Scheme → List Scheme → Bool
  | [], [] => true
  | s :: ss, t :: ts => beq s t && beqParams ss ts
  | _, _ => false
termination_by structural ss => ss

end

instance : BEq Scheme :=
  ⟨beq⟩

/-- The tagged type with these arguments; without any it is written as a plain name. -/
def tagged (name : Name) (args : List (Arg UnitScheme Scheme)) : Scheme :=
  if args.isEmpty then ident name else apply name args

/-- The record with these fields, of which the later of two with the same name counts. -/
def recordOf (fields : List (Field Scheme)) (complete : Bool) : Scheme :=
  record (Field.ofList fields) complete

/-- The record with these fields, unless a field name cannot be written. -/
def recordOf? (fields : List (Field Scheme)) (complete : Bool) : Except InvalidName Scheme := do
  for field in fields do
    let _ ← Name.check field.name
  return recordOf fields complete

mutual

/-- The names of the tagged types that are applied to arguments, from the outside in and from left to
right. -/
def appliedNames : Scheme → List Name
  | primitive _ => []
  | number _ => []
  | ident _ => []
  | apply name args => name :: appliedNamesArgs args
  | record fields _ => appliedNamesFields fields
  | array element => appliedNames element
  | function params result => appliedNamesParams params ++ appliedNames result
termination_by structural t => t

/-- The applied names in a list of arguments. -/
def appliedNamesArgs : List (Arg UnitScheme Scheme) → List Name
  | [] => []
  | .unit _ :: args => appliedNamesArgs args
  | .type t :: args => appliedNames t ++ appliedNamesArgs args
termination_by structural args => args

/-- The applied names in a list of fields. -/
def appliedNamesFields : List (Field Scheme) → List Name
  | [] => []
  | ⟨_, t, _⟩ :: fields => appliedNames t ++ appliedNamesFields fields
termination_by structural fields => fields

/-- The applied names in a list of parameters. -/
def appliedNamesParams : List Scheme → List Name
  | [] => []
  | t :: params => appliedNames t ++ appliedNamesParams params
termination_by structural params => params

end

mutual

/-- Put `new` in place of every part of the type that equals `target`, from the outside in.  What was put in
place is not searched again. -/
def replace (t target new : Scheme) : Scheme :=
  if t == target then new
  else
    match t with
    | primitive _ => t
    | number _ => t
    | ident _ => t
    | apply name args => apply name (replaceArgs args target new)
    | record fields complete => record (replaceFields fields target new) complete
    | array element => array (replace element target new)
    | function params result =>
        function (replaceParams params target new) (replace result target new)
termination_by structural t

/-- Replacement in a list of arguments. -/
def replaceArgs (args : List (Arg UnitScheme Scheme)) (target new : Scheme) :
    List (Arg UnitScheme Scheme) :=
  match args with
  | [] => []
  | .unit u :: args => .unit u :: replaceArgs args target new
  | .type t :: args => .type (replace t target new) :: replaceArgs args target new
termination_by structural args

/-- Replacement in a list of fields. -/
def replaceFields (fields : List (Field Scheme)) (target new : Scheme) : List (Field Scheme) :=
  match fields with
  | [] => []
  | ⟨name, t, required⟩ :: fields =>
      ⟨name, replace t target new, required⟩ :: replaceFields fields target new
termination_by structural fields

/-- Replacement in a list of parameters. -/
def replaceParams (params : List Scheme) (target new : Scheme) : List Scheme :=
  match params with
  | [] => []
  | t :: params => replace t target new :: replaceParams params target new
termination_by structural params

end

end Scheme

end Tabula
