import Tabula.Catalog.Units
import Tabula.Token.Basic

/-!
# Errors in written types
-/

namespace Tabula

/-- What a reader was looking for. -/
inductive Expected where
  | type
  | unit
  | unitVariable
  | exponent
  | fieldName
  | commaOrClose
  | token (t : Token)
  | endOfInput
deriving DecidableEq

/-- The words for it in a message. -/
def Expected.text : Expected → String
  | type => "a type"
  | unit => "a unit"
  | unitVariable => "a unit variable name"
  | exponent => "an integer exponent"
  | fieldName => "a field name or `...`"
  | commaOrClose => "`,` or `)`"
  | token t => "`" ++ t.literal?.getD "" ++ "`"
  | endOfInput => "end of input"

/-- Why a text is no written type or unit. -/
inductive ParseError where
  /-- No token can be read here. -/
  | unreadable (span : Span)
  /-- A token that cannot follow what stands before it. -/
  | unexpectedToken (span : Span) (found : String) (expected : Expected)
  /-- The text ends too early. -/
  | unexpectedEnd (expected : Expected)
  /-- A power that is no exponent, or a number other than `1` in the place of a unit. -/
  | invalidExponent (span : Span)
  /-- A quotient is divided again without brackets. -/
  | chainedDivision (span : Span)
  /-- A record has two fields of the same name. -/
  | duplicateField (span : Span) (name : Name)
  | unknownUnit (e : UnknownUnit)
deriving DecidableEq

namespace ParseError

/-- The lexeme cannot stand where something else is expected. -/
def unexpected (l : Lexeme) (expected : Expected) : ParseError :=
  unexpectedToken l.span l.text expected

/-- What is told to the user. -/
def message : ParseError → String
  | unreadable span => "unexpected character at " ++ span.text
  | unexpectedToken span found expected =>
      "unexpected `" ++ found ++ "` at " ++ span.text ++ ", expected " ++ expected.text
  | unexpectedEnd expected => "unexpected end of input, expected " ++ expected.text
  | invalidExponent span => "invalid exponent at " ++ span.text
  | chainedDivision span =>
      "chained unit division at " ++ span.text ++ ": use brackets, as in `m/(s*s)`"
  | duplicateField span name => "field " ++ name.quoted ++ " is repeated at " ++ span.text
  | unknownUnit e => e.message

end ParseError

end Tabula
