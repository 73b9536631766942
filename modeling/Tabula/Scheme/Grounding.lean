import Tabula.Catalog.Basic

/-!
# From written types to ground types

`Scheme.toGround` replaces the variables of a written type by their values and looks up the tagged types in
a catalog.  A field that is not required gets the wrapper type of the catalog around its own.

A part that has no meaning is reported together with types to use in its place: a name that is neither a
variable nor declared, an undeclared tagged type, or a record that is left open.
-/

namespace Tabula

/-- A part of a written type that has no meaning as a ground type. -/
inductive Unresolved where
  | name (n : Name)
  | tagged (n : Name) (args : List (Arg UnitScheme Scheme))
  | openRecord (fields : List (Field Scheme))

namespace Unresolved

/-- The part itself. -/
def toScheme : Unresolved → Scheme
  | name n => .ident n
  | tagged n args => .apply n args
  | openRecord fields => .record fields false

/-- What is told to the user. -/
def message : Unresolved → String
  | name n => "unknown type " ++ n.quoted
  | tagged n _ => "unknown tagged type " ++ n.quoted
  | openRecord _ => "an open record type can't be used as a concrete type"

/-- What can stand in the place of the part. -/
def suggestions (c : Catalog) : Unresolved → List Scheme
  | name n => c.suggestForName n
  | tagged n args => c.suggestForTagged n args
  | openRecord fields => [.record fields true]

end Unresolved

/-- Why a written type has no ground type. -/
inductive GroundingError where
  | binding (e : BindingError)
  | unresolved (part : Unresolved) (suggestions : List Scheme)
  | arguments (e : ArgumentError)

/-- What is told to the user. -/
def GroundingError.message : GroundingError → String
  | binding e => e.message
  | unresolved part _ => part.message
  | arguments e => e.message

/-- Values of variables that are ground. -/
abbrev Substitution := Bindings Measure GroundType

/-- The value of a factor of a unit. -/
def Substitution.atom (s : Substitution) : Atom Name → Except BindingError Measure
  | .var v => s.unit v
  | .unit u => .ok (.single u.name)

/-- Replace the variables of a unit by their values. -/
def UnitScheme.toMeasure (s : Substitution) (u : UnitScheme) : Except BindingError Measure :=
  u.bindM s.atom

namespace Scheme

/-- A unit as part of a type. -/
def groundUnit (s : Substitution) (u : UnitScheme) : Except GroundingError Measure :=
  (UnitScheme.toMeasure s u).mapError .binding

/-- A declared type, or the part of the written type that refers to it. -/
def groundTagged (c : Catalog) (name : Name) (args : List (Arg Measure GroundType))
    (part : Unresolved) : Except GroundingError GroundType :=
  match c.lookup name args with
  | .ok (some t) => .ok t
  | .ok none => .error (.unresolved part (part.suggestions c))
  | .error e => .error (.arguments e)

/-- The type of a field. -/
def groundFieldType (c : Catalog) (required : Bool) (t : GroundType) :
    Except GroundingError GroundType :=
  if required then .ok t else (c.wrap t).mapError .arguments

mutual

/-- The ground type that a written type stands for. -/
def toGround (s : Substitution) (c : Catalog) : Scheme → Except GroundingError GroundType
  | primitive p => .ok (.primitive p)
  | number u => (groundUnit s u).map .number
  | ident name =>
      match s.typeVar name with
      | .error e => .error (.binding e)
      | .ok (some t) => .ok t
      | .ok none => groundTagged c name [] (.name name)
  | apply name args => do
      let values ← toGroundArgs s c args
      groundTagged c name values (.tagged name args)
  | record fields complete =>
      if complete then (toGroundFields s c fields).map .record
      else .error (.unresolved (.openRecord fields) ((Unresolved.openRecord fields).suggestions c))
  | array element => (toGround s c element).map .array
  | function params result => do
      let params ← toGroundParams s c params
      let result ← toGround s c result
      return .function params result
termination_by structural t => t

/-- The ground arguments, from left to right. -/
def toGroundArgs (s : Substitution) (c : Catalog) :
    List (Arg UnitScheme Scheme) → Except GroundingError (List (Arg Measure GroundType))
  | [] => .ok []
  | .unit u :: args => do
      let value ← groundUnit s u
      let values ← toGroundArgs s c args
      return .unit value :: values
  | .type t :: args => do
      let value ← toGround s c t
      let values ← toGroundArgs s c args
      return .type value :: values
termination_by structural args => args

/-- The ground fields, in order of their names. -/
def toGroundFields (s : Substitution) (c : Catalog) :
    List (Field Scheme) → Except GroundingError (List (Name × GroundType))
  | [] => .ok []
  | ⟨name, t, required⟩ :: fields => do
      let value ← toGround s c t
      let type ← groundFieldType c required value
      let others ← toGroundFields s c fields
      return (name, type) :: others
termination_by structural fields => fields

/-- The ground parameters, from left to right. -/
def toGroundParams (s : Substitution) (c : Catalog) :
    List Scheme → Except GroundingError (List GroundType)
  | [] => .ok []
  | t :: params => do
      let value ← toGround s c t
      let values ← toGroundParams s c params
      return value :: values
termination_by structural params => params

end

/-- One step of a repair: the error that was met, and the type after it was mended. -/
inductive RepairStep where
  /-- The type has a ground type. -/
  | done (t : GroundType)
  /-- A part was replaced. -/
  | replaced (error : GroundingError) (type : Scheme)
  /-- There is nothing to put in place of the part. -/
  | stuck (error : GroundingError)

/-- Replace unresolved parts by the suggestion number `pick`, in at most `limit` steps. -/
def repair (c : Catalog) (pick : Nat) : Nat → Scheme → List RepairStep
  | 0, _ => []
  | limit + 1, t =>
      match toGround .empty c t with
      | .ok g => [.done g]
      | .error (.unresolved part suggestions) =>
          match suggestions[pick]? with
          | some new =>
              let t := t.replace part.toScheme new
              .replaced (.unresolved part suggestions) t :: repair c pick limit t
          | none => [.stuck (.unresolved part suggestions)]
      | .error e => [.stuck e]

end Scheme

namespace TaggedType

/-- The tags of the type for these arguments, with ground types of the values they carry. -/
def instantiateTags (d : TaggedType) (c : Catalog) (args : List (Arg Measure GroundType)) :
    Except GroundingError (List (Name × Option GroundType)) := do
  let s ← (d.substitution args).mapError .arguments
  d.tags.mapM fun tag =>
    match tag.payload with
    | none => .ok (tag.name, none)
    | some t => do return (tag.name, some (← t.toGround s c))

end TaggedType

end Tabula
