import Tabula.Scheme.Grounding
import Tabula.Store.Basic

/-!
# Reading values back

Once its variables have values, a term can be read back as a ground type.  Tagged types are looked up in a
catalog, and a field that is not required gets the wrapper type of the catalog around its own.
-/

namespace Tabula

/-- Why a term has no ground type. -/
inductive ReadError where
  /-- A variable has no value. -/
  | unsolvedVar (id : VarId) (kind : Kind)
  /-- The value of a name mentions a variable without a value. -/
  | unsolved (name : Name) (kind : Kind)
  | openRecord
  | unknownType (name : Name)
  | arguments (e : ArgumentError)
  /-- The values in the store form a cycle. -/
  | cyclicStore
deriving DecidableEq

/-- What is told to the user. -/
def ReadError.message : ReadError → String
  | unsolvedVar id kind => "unification variable ?" ++ id.repr ++ " (" ++ kind.word ++ ") is unsolved"
  | unsolved name kind => "cannot determine the " ++ kind.word ++ " " ++ name.quoted
  | openRecord => "an open record type cannot be made concrete"
  | unknownType name => "unknown type " ++ name.quoted
  | arguments e => e.message
  | cyclicStore => "the assignments of the variables form a cycle"

namespace Term

/-- A declared type. -/
def groundTagged (c : Catalog) (name : Name) (args : List (Arg Measure GroundType)) :
    Except ReadError GroundType :=
  match c.lookup name args with
  | .ok (some t) => .ok t
  | .ok none => .error (.unknownType name)
  | .error e => .error (.arguments e)

/-- The type of a field. -/
def groundFieldType (c : Catalog) (required : Bool) (t : GroundType) : Except ReadError GroundType :=
  if required then .ok t else (c.wrap t).mapError .arguments

mutual

/-- The ground type of a term, given the ground types of its variables and the measures of its units. -/
def toGround (c : Catalog) (type : VarId → Except ReadError GroundType)
    (unit : UnitTerm → Except ReadError Measure) : Term → Except ReadError GroundType
  | var id => type id
  | primitive p => .ok (.primitive p)
  | number u => (unit u).map .number
  | tagged name args => do
      let values ← toGroundArgs c type unit args
      groundTagged c name values
  | record fields complete =>
      if complete then (toGroundFields c type unit fields).map .record else .error .openRecord
  | array element => (toGround c type unit element).map .array
  | function params result => do
      let params ← toGroundParams c type unit params
      let result ← toGround c type unit result
      return .function params result
termination_by structural t => t

/-- The ground arguments, from left to right. -/
def toGroundArgs (c : Catalog) (type : VarId → Except ReadError GroundType)
    (unit : UnitTerm → Except ReadError Measure) :
    List (Arg UnitTerm Term) → Except ReadError (List (Arg Measure GroundType))
  | [] => .ok []
  | .unit u :: args => do
      let value ← unit u
      let values ← toGroundArgs c type unit args
      return .unit value :: values
  | .type t :: args => do
      let value ← toGround c type unit t
      let values ← toGroundArgs c type unit args
      return .type value :: values
termination_by structural args => args

/-- The ground fields, in order of their names. -/
def toGroundFields (c : Catalog) (type : VarId → Except ReadError GroundType)
    (unit : UnitTerm → Except ReadError Measure) :
    List (Field Term) → Except ReadError (List (Name × GroundType))
  | [] => .ok []
  | ⟨name, t, required⟩ :: fields => do
      let value ← toGround c type unit t
      let fieldType ← groundFieldType c required value
      let others ← toGroundFields c type unit fields
      return (name, fieldType) :: others
termination_by structural fields => fields

/-- The ground parameters, from left to right. -/
def toGroundParams (c : Catalog) (type : VarId → Except ReadError GroundType)
    (unit : UnitTerm → Except ReadError Measure) :
    List Term → Except ReadError (List GroundType)
  | [] => .ok []
  | t :: params => do
      let value ← toGround c type unit t
      let values ← toGroundParams c type unit params
      return value :: values
termination_by structural params => params

end

end Term

namespace Store

/-- Read a unit back. -/
def readUnit (s : Store) (u : UnitTerm) : Except ReadError Measure :=
  let resolved := s.resolve u
  match UnitTerm.toMeasure? resolved with
  | some m => .ok m
  | none => .error (.unsolvedVar (((UnitTerm.vars resolved).head?.map Prod.fst).getD 0) .unit)

/-- Read a term back, going through at most `steps` values of variables. -/
def readTypeWithin (s : Store) (c : Catalog) : Nat → Term → Except ReadError GroundType
  | 0, _ => .error .cyclicStore
  | steps + 1, t =>
      t.toGround c
        (fun id =>
          match s.root id with
          | .var last => .error (.unsolvedVar last .type)
          | value => s.readTypeWithin c steps value)
        s.readUnit

/-- Read a term back. -/
def readType (s : Store) (c : Catalog) (t : Term) : Except ReadError GroundType :=
  s.readTypeWithin c (s.types.size + 1) t

/-- An unsolved variable is reported under the name that it is sought for. -/
def nameUnsolved (name : Name) (kind : Kind) : ReadError → ReadError
  | .unsolvedVar _ _ => .unsolved name kind
  | e => e

/-- Read one value back. -/
def readArg (s : Store) (c : Catalog) (name : Name) :
    Arg UnitTerm Term → Except ReadError (Arg Measure GroundType)
  | .unit u => ((s.readUnit u).mapError (nameUnsolved name .unit)).map .unit
  | .type t => ((s.readType c t).mapError (nameUnsolved name .type)).map .type

/-- Read the values of all names back, in order of the names. -/
def solve (s : Store) (c : Catalog) (b : TermBindings) : Except ReadError Substitution :=
  b.entries.foldlM
    (fun solution entry => do return solution.insert entry.1 (← s.readArg c entry.1 entry.2))
    Bindings.empty

end Store

end Tabula
