import Tabula.Exponent
import Tabula.Keyword

/-!
# Tokens

The words of written types.  A lexeme is a token together with its text and its place in the source,
counted in bytes of the UTF-8 encoding.
-/

namespace Tabula

/-- A word of the type language. -/
inductive Token where
  | name (n : Name)
  | keyword (k : Keyword)
  | int (value : Exponent)
  | unitVar
  | lparen
  | rparen
  | lbracket
  | rbracket
  | lbrace
  | rbrace
  | comma
  | colon
  | question
  | ellipsis
  | arrow
  | times
  | div
  | pow
deriving DecidableEq

namespace Token

/-- The name that the token can stand for; keywords are names of fields and units too. -/
def asName? : Token → Option Name
  | name n => some n
  | keyword k => some k.asName
  | _ => none

/-- The text of a token that has only one. -/
def literal? : Token → Option String
  | name _ => none
  | keyword k => some k.spelling
  | int _ => none
  | unitVar => some "@unitvar"
  | lparen => some "("
  | rparen => some ")"
  | lbracket => some "["
  | rbracket => some "]"
  | lbrace => some "\x7b"
  | rbrace => some "\x7d"
  | comma => some ","
  | colon => some ":"
  | question => some "?"
  | ellipsis => some "..."
  | arrow => some "->"
  | times => some "*"
  | div => some "/"
  | pow => some "^"

end Token

/-- A part of a source text, from the byte `start` up to but not including the byte `stop`. -/
structure Span where
  start : Nat
  stop : Nat
deriving DecidableEq

/-- The two ends, with two dots between them. -/
def Span.text (s : Span) : String :=
  s.start.repr ++ ".." ++ s.stop.repr

/-- A token at its place. -/
structure Lexeme where
  token : Token
  text : String
  span : Span
deriving DecidableEq

end Tabula
