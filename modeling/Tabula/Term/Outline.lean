import Tabula.Term.Basic
import Tabula.Text.Quoted

/-!
# Outlines of terms

Messages about terms that do not fit together show the terms in full, as nested constructors with the names
of their parts.  Terms have variables without a name, so they have no written form as types.
-/

namespace Tabula

/-- A list of parts that stands between two brackets. -/
def outlineList (opening closing : String) (parts : List String) : String :=
  opening ++ ", ".intercalate parts ++ closing

/-- A constructor with named parts. -/
def outlineRecord (name : String) (parts : List (String × String)) : String :=
  name ++ outlineList " \x7b " " \x7d" (parts.map fun p => p.1 ++ ": " ++ p.2)

/-- A constructor with one part. -/
def outlineCall (name : String) (part : String) : String :=
  name ++ "(" ++ part ++ ")"

/-- The words for a truth value. -/
def outlineBool (b : Bool) : String :=
  if b then "true" else "false"

/-- The constructors of a primitive type. -/
def Primitive.outline : Primitive → String
  | boolean => "Bool"
  | text => "Text"
  | date => outlineCall "Date" "YearMonthDay"
  | dateYM => outlineCall "Date" "YearMonth"
  | time => outlineCall "Date" "TimeOfDay"
  | dateTime => outlineCall "Date" "DateTime"
  | dateTimeZoned => outlineCall "Date" "DateTimeZoned"

/-- A variable by its number, a unit with its description. -/
def UnitTerm.outlineAtom : Atom VarId → String
  | .var id => outlineCall "UnifVar" id.repr
  | .unit u =>
      outlineCall "Unit"
        (outlineRecord "SingleUnit" [("name", u.name.quoted), ("description", Text.quoted u.description)])

/-- The factors of a unit with their powers. -/
def UnitTerm.outline (u : UnitTerm) : String :=
  outlineRecord "UnitExp"
    [("atoms", outlineList "\x7b" "\x7d"
      (u.factors.map fun f => UnitTerm.outlineAtom f.1 ++ ": " ++ f.2.text))]

namespace Term

mutual

/-- The constructors of a term. -/
def outline : Term → String
  | var id => outlineCall "UnifVar" id.repr
  | primitive p => outlineCall "Primitive" p.outline
  | number u => outlineCall "Number" (UnitTerm.outline u)
  | tagged name args =>
      outlineRecord "Tagged"
        [("name", name.quoted), ("args", outlineList "[" "]" (outlineArgs args))]
  | record fields complete =>
      outlineRecord "Record"
        [("fields", outlineList "\x7b" "\x7d" (outlineFields fields)), ("complete", outlineBool complete)]
  | array element => outlineCall "Array" (outline element)
  | function params result =>
      outlineRecord "Function"
        [("params", outlineList "[" "]" (outlineParams params)), ("result", outline result)]
termination_by structural t => t

/-- The constructors of arguments. -/
def outlineArgs : List (Arg UnitTerm Term) → List String
  | [] => []
  | .unit u :: args => outlineCall "Unit" (UnitTerm.outline u) :: outlineArgs args
  | .type t :: args => outlineCall "Type" (outline t) :: outlineArgs args
termination_by structural args => args

/-- The constructors of fields. -/
def outlineFields : List (Field Term) → List String
  | [] => []
  | ⟨name, t, required⟩ :: fields =>
      (name.quoted ++ ": " ++
        outlineRecord "FieldExp" [("typ", outline t), ("required", outlineBool required)]) ::
        outlineFields fields
termination_by structural fields => fields

/-- The constructors of parameters. -/
def outlineParams : List Term → List String
  | [] => []
  | t :: params => outline t :: outlineParams params
termination_by structural params => params

end

end Term

end Tabula
