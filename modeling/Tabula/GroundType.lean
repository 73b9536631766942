import Tabula.Scheme.Printer

/-!
# Ground types

A ground type has no variables, no optional fields and no open records: it is the type of actual data.
`GroundType.toScheme` writes it as a scheme, where it has its text.
-/

namespace Tabula

/-- A type without variables. -/
inductive GroundType where
  | primitive (p : Primitive)
  | number (unit : Measure)
  | tagged (name : Name) (args : List (Arg Measure GroundType))
  | record (fields : List (Name × GroundType))
  | array (element : GroundType)
  | function (params : List GroundType) (result : GroundType)

namespace GroundType

mutual

/-- Equality of ground types. -/
def beq : GroundType → GroundType → Bool
  | primitive p, primitive q => p == q
  | number u, number v => u == v
  | tagged n as, tagged m bs => n == m && beqArgs as bs
  | record fs, record gs => beqFields fs gs
  | array s, array t => beq s t
  | function ps r, function qs s => beqParams ps qs && beq r s
  | _, _ => false
termination_by structural t => t

/-- Equality of argument lists. -/
def beqArgs : List (Arg Measure GroundType) → List (Arg Measure GroundType) → Bool
  | [], [] => true
  | .unit u :: as, .unit v :: bs => u == v && beqArgs as bs
  | .type s :: as, .type t :: bs => beq s t && beqArgs as bs
  | _, _ => false
termination_by structural as => as

/-- Equality of field lists. -/
def beqFields : List (Name × GroundType) → List (Name × GroundType) → Bool
  | [], [] => true
  | (n, s) :: fs, (m, t) :: gs => n == m && beq s t && beqFields fs gs
  | _, _ => false
termination_by structural fs => fs

/-- Equality of parameter lists. -/
def beqParams : List GroundType → List GroundType → Bool
  | [], [] => true
  | s :: ss, t :: ts => beq s t && beqParams ss ts
  | _, _ => false
termination_by structural ss => ss

end

instance : BEq GroundType :=
  ⟨beq⟩

/-- The record with these fields, of which the later of two with the same name counts. -/
def recordOf (fields : List (Name × GroundType)) : GroundType :=
  record (Ascending.ofList Prod.fst fields)

mutual

/-- The type as it would be written. -/
def toScheme : GroundType → Scheme
  | primitive p => .primitive p
  | number unit => .number unit.lift
  | tagged name args => .tagged name (toSchemeArgs args)
  | record fields => .record (toSchemeFields fields) true
  | array element => .array (toScheme element)
  | function params result => .function (toSchemeParams params) (toScheme result)
termination_by structural t => t

/-- The arguments as they would be written. -/
def toSchemeArgs : List (Arg Measure GroundType) → List (Arg UnitScheme Scheme)
  | [] => []
  | .unit u :: args => .unit u.lift :: toSchemeArgs args
  | .type t :: args => .type (toScheme t) :: toSchemeArgs args
termination_by structural args => args

/-- The fields as they would be written, all of them required. -/
def toSchemeFields : List (Name × GroundType) → List (Field Scheme)
  | [] => []
  | (name, t) :: fields => ⟨name, toScheme t, true⟩ :: toSchemeFields fields
termination_by structural fields => fields

/-- The parameters as they would be written. -/
def toSchemeParams : List GroundType → List Scheme
  | [] => []
  | t :: params => toScheme t :: toSchemeParams params
termination_by structural params => params

end

/-- The written form of a ground type. -/
def text (t : GroundType) : String :=
  t.toScheme.text

end GroundType

end Tabula
