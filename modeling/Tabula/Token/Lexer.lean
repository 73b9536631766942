import Tabula.Token.Basic

/-!
# Reading tokens

`scan` cuts a source text into pieces.  Each piece is the longest token at its place; where no token starts,
one character is unreadable and reading goes on behind it.  An integer that is out of range is unreadable as
a whole.  Blanks between the pieces are dropped.

`Lexeme.readAll` is for readers that need every piece to be a token.
-/

namespace Tabula

/-- A piece of a source text. -/
inductive Piece where
  | lexeme (l : Lexeme)
  | unreadable (span : Span)
deriving DecidableEq

namespace Token

/-- The characters between tokens: space, tab, carriage return and line feed. -/
def isBlank (c : Char) : Bool :=
  c == ' ' || c == '\t' || c == '\r' || c == '\n'

/-- The value of decimal digits. -/
def digitsValue (digits : List Char) : Nat :=
  digits.foldl (fun n d => 10 * n + (d.toNat - '0'.toNat)) 0

/-- The token of a whole word: a keyword or a name. -/
def ofWord (word : List Char) : Token :=
  let n := String.ofList word
  match Keyword.ofName? n with
  | some k => keyword k
  | none => name n

/-- The token that consists of this character alone. -/
def ofChar? : Char → Option Token
  | '(' => some lparen
  | ')' => some rparen
  | '[' => some lbracket
  | ']' => some rbracket
  | '\x7b' => some lbrace
  | '\x7d' => some rbrace
  | ',' => some comma
  | ':' => some colon
  | '?' => some question
  | '*' => some times
  | '/' => some div
  | '^' => some pow
  | _ => none

/-- The word that announces a unit variable, after its first character. -/
def unitVarTail : List Char :=
  ['u', 'n', 'i', 't', 'v', 'a', 'r']

/-- The piece at the front of the text `c :: cs`, which does not start with a blank: its token, if it is one,
and how many characters of `cs` belong to it. -/
def munch (c : Char) (cs : List Char) : Option Token × Nat :=
  if Name.isHead c then
    let tail := cs.takeWhile Name.isTail
    (some (ofWord (c :: tail)), tail.length)
  else if c.isDigit then
    let tail := cs.takeWhile Char.isDigit
    ((Exponent.ofInt? (digitsValue (c :: tail))).map int, tail.length)
  else if c == '-' then
    let tail := cs.takeWhile Char.isDigit
    if !tail.isEmpty then ((Exponent.ofInt? (-(digitsValue tail : Int))).map int, tail.length)
    else if ['>'].isPrefixOf cs then (some arrow, 1)
    else (none, 0)
  else if c == '.' then
    if ['.', '.'].isPrefixOf cs then (some ellipsis, 2) else (none, 0)
  else if c == '@' then
    if unitVarTail.isPrefixOf cs then (some unitVar, unitVarTail.length) else (none, 0)
  else (ofChar? c, 0)

end Token

/-- The pieces of the text `cs`, which starts at the byte `offset` of the source. -/
def scanFrom (offset : Nat) : List Char → List Piece
  | [] => []
  | c :: cs =>
      if Token.isBlank c then scanFrom (offset + c.utf8Size) cs
      else
        let m := Token.munch c cs
        let text := String.ofList (c :: cs.take m.2)
        let stop := offset + text.utf8ByteSize
        let piece := match m.1 with
          | some token => .lexeme ⟨token, text, ⟨offset, stop⟩⟩
          | none => .unreadable ⟨offset, stop⟩
        piece :: scanFrom stop (cs.drop m.2)
termination_by cs => cs.length
decreasing_by
  · simp
  · simp only [List.length_drop, List.length_cons]
    omega

/-- The pieces of a source text. -/
def scan (source : String) : List Piece :=
  scanFrom 0 source.toList

/-- The lexemes, if every piece is one; otherwise the place of the first piece that is not. -/
def Lexeme.ofPieces : List Piece → Except Span (List Lexeme)
  | [] => .ok []
  | .unreadable span :: _ => .error span
  | .lexeme l :: rest => (ofPieces rest).map (l :: ·)

/-- The lexemes of a source text that is readable throughout. -/
def Lexeme.readAll (source : String) : Except Span (List Lexeme) :=
  ofPieces (scan source)

end Tabula
