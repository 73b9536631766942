import Tabula.Scheme.Basic

/-!
# The written form of a type

`Scheme.text` writes a type on one line.  Fields are separated by a comma and a blank, a field that is not
required has a question mark after its name, and an incomplete record ends in three dots.
-/

namespace Tabula

namespace Scheme

/-- The unit of a number stands between braces; the unit `1` is not written. -/
def numberText (unit : UnitScheme) : String :=
  if unit.isOne then "Number" else "Number\x7b" ++ UnitScheme.text unit ++ "\x7d"

mutual

/-- The written form of a type. -/
def text : Scheme → String
  | primitive p => p.spelling
  | number unit => numberText unit
  | ident name => name
  | apply name args => name ++ textArgs args
  | record fields complete =>
      "(" ++ ", ".intercalate (textFields fields ++ if complete then [] else ["..."]) ++ ")"
  | array element => "[" ++ text element ++ "]"
  | function params result =>
      "((" ++ ", ".intercalate (textParams params) ++ ") -> " ++ text result ++ ")"
termination_by structural t => t

/-- Each argument stands between parentheses, a unit also between braces. -/
def textArgs : List (Arg UnitScheme Scheme) → String
  | [] => ""
  | .unit u :: args => "(\x7b" ++ UnitScheme.text u ++ "\x7d)" ++ textArgs args
  | .type t :: args => "(" ++ text t ++ ")" ++ textArgs args
termination_by structural args => args

/-- The written forms of the fields. -/
def textFields : List (Field Scheme) → List String
  | [] => []
  | ⟨name, t, required⟩ :: fields =>
      (name ++ (if required then "" else "?") ++ ":" ++ text t) :: textFields fields
termination_by structural fields => fields

/-- The written forms of the parameters. -/
def textParams : List Scheme → List String
  | [] => []
  | t :: params => text t :: textParams params
termination_by structural params => params

end

end Scheme

end Tabula
