import Tabula.Scheme.Basic
import Tabula.Scheme.UnitParser

/-!
# Reading written types

    type     = "Boolean" | "Text" | "Date" | "DateYMD" | "DateYM" | "Time" | "DateTime" | "DateTimeZoned"
             | "Number" [ "{" unit "}" ]
             | "[" type "]"
             | "(" "(" [ type { "," type } ] ")" "->" type ")"
             | "(" [ { field "," } ( field | "..." ) ] ")"
             | NAME { "(" ( "{" unit "}" | type ) ")" }
    field    = NAME [ "?" ] ":" type

Field names may be keywords, names of tagged types may not.  A record has no two fields of the same name.

`Scheme.parse` and `UnitScheme.parse` read a whole text.  A part of the text that is no token is reported
before anything else.
-/

namespace Tabula

namespace Scheme

open Lexeme (expect next nextName eat)

/-- The primitive type that a keyword stands for; only `Number` stands for none. -/
def primitive? : Keyword → Option Primitive
  | .boolean => some .boolean
  | .text => some .text
  | .number => none
  | .date => some .date
  | .dateYMD => some .date
  | .dateYM => some .dateYM
  | .time => some .time
  | .dateTime => some .dateTime
  | .dateTimeZoned => some .dateTimeZoned

/-- Read the unit of a number after the word `Number`, if one follows. -/
def readNumber (units : UnitCatalog) (stop : Nat) (ts : List Lexeme) :
    Except ParseError (Parsed Scheme (ts.length + 1)) :=
  let brace := eat .lbrace stop ts
  if brace.value then do
    let unit ← UnitScheme.read units brace.rest
    let close ← expect .rbrace unit.rest
    return (close.map fun _ => number unit.value).widen (by
      have := brace.within
      have := unit.within
      omega)
  else return brace.map fun _ => number .one

mutual

/-- Read a type. -/
def read (units : UnitCatalog) (ts : List Lexeme) : Except ParseError (Parsed Scheme ts.length) :=
  match ts with
  | [] => .error (.unexpectedEnd .type)
  | l :: rest =>
      match l.token with
      | .keyword k =>
          match primitive? k with
          | some p => .ok ⟨primitive p, l.span.stop, rest, by simp⟩
          | none => do
              let t ← readNumber units l.span.stop rest
              return t.widen (by simp)
      | .lbracket => do
          let element ← read units rest
          let close ← expect .rbracket element.rest
          return (close.map fun _ => array element.value).widen (by
            have := element.within
            simp only [List.length_cons]
            omega)
      | .lparen =>
          let open' := eat .lparen l.span.stop rest
          if open'.value then do
            let t ← readFunction units open'.rest
            return t.widen (by have := open'.within; simp only [List.length_cons]; omega)
          else do
            let t ← readRecord units rest
            return t.widen (by simp only [List.length_cons]; omega)
      | .name n => do
          let args ← readArgs units l.span.stop rest
          return (args.map fun as => tagged n as).widen (by simp)
      | _ => .error (.unexpected l .type)
termination_by (ts.length, 0)
decreasing_by
  · exact Prod.Lex.left _ _ (by simp)
  · exact Prod.Lex.left _ _ (by have := open'.within; simp only [List.length_cons]; omega)
  · exact Prod.Lex.left _ _ (by simp)
  · exact Prod.Lex.left _ _ (by simp)

/-- Read a function type behind its two opening parentheses. -/
def readFunction (units : UnitCatalog) (ts : List Lexeme) :
    Except ParseError (Parsed Scheme ts.length) := do
  let params ← readParamList units ts
  let arrow ← expect .arrow params.rest
  let result ← read units arrow.rest
  let close ← expect .rparen result.rest
  return (close.map fun _ => function params.value result.value).widen (by
    have := params.within
    have := arrow.within
    have := result.within
    omega)
termination_by (ts.length, 3)
decreasing_by
  · exact Prod.Lex.right _ (by decide)
  · exact Prod.Lex.left _ _ (by have := params.within; have := arrow.within; omega)

/-- Read the parameters of a function type, possibly none, and the closing parenthesis. -/
def readParamList (units : UnitCatalog) (ts : List Lexeme) :
    Except ParseError (Parsed (List Scheme) ts.length) :=
  match ts with
  | [] => readParams units []
  | l :: rest =>
      if l.token = .rparen then .ok ⟨[], l.span.stop, rest, by simp⟩
      else readParams units (l :: rest)
termination_by (ts.length, 2)
decreasing_by
  · exact Prod.Lex.right _ (by decide)
  · exact Prod.Lex.right _ (by decide)

/-- Read one or more parameters and the closing parenthesis. -/
def readParams (units : UnitCatalog) (ts : List Lexeme) :
    Except ParseError (Parsed (List Scheme) ts.length) := do
  let first ← read units ts
  let mark ← next .commaOrClose first.rest
  match mark.value.token with
  | .comma =>
      let others ← readParams units mark.rest
      return (others.map fun ts => first.value :: ts).widen (by
        have := first.within
        have := mark.within
        omega)
  | .rparen => return (mark.map fun _ => [first.value]).widen (by have := first.within; omega)
  | _ => throw (.unexpected mark.value .commaOrClose)
termination_by (ts.length, 1)
decreasing_by
  · exact Prod.Lex.right _ (by decide)
  · exact Prod.Lex.left _ _ (by have := first.within; have := mark.within; omega)

/-- Read a record type behind its opening parenthesis. -/
def readRecord (units : UnitCatalog) (ts : List Lexeme) :
    Except ParseError (Parsed Scheme ts.length) :=
  match ts with
  | [] => readFields units [] []
  | l :: rest =>
      if l.token = .rparen then .ok ⟨record [] true, l.span.stop, rest, by simp⟩
      else readFields units [] (l :: rest)
termination_by (ts.length, 3)
decreasing_by
  · exact Prod.Lex.right _ (by decide)
  · exact Prod.Lex.right _ (by decide)

/-- Read the fields of a record that follow `fields`, and the closing parenthesis. -/
def readFields (units : UnitCatalog) (fields : List (Field Scheme)) (ts : List Lexeme) :
    Except ParseError (Parsed Scheme ts.length) :=
  let dots := eat .ellipsis 0 ts
  if dots.value then do
    let close ← expect .rparen dots.rest
    return (close.map fun _ => record fields false).widen (by have := dots.within; omega)
  else do
    let field ← readField units ts
    if (Field.find? field.value.1.name fields).isSome then
      throw (.duplicateField field.value.2 field.value.1.name)
    else
      let fields := Field.insert field.value.1 fields
      let mark ← next .commaOrClose field.rest
      match mark.value.token with
      | .comma =>
          let all ← readFields units fields mark.rest
          return all.widen (by have := field.within; have := mark.within; omega)
      | .rparen => return (mark.map fun _ => record fields true).widen (by have := field.within; omega)
      | _ => throw (.unexpected mark.value .commaOrClose)
termination_by (ts.length, 2)
decreasing_by
  · exact Prod.Lex.right _ (by decide)
  · exact Prod.Lex.left _ _ (by have := field.within; have := mark.within; omega)

/-- Read one field, and say where its name stands. -/
def readField (units : UnitCatalog) (ts : List Lexeme) :
    Except ParseError (Parsed (Field Scheme × Span) ts.length) := do
  let name ← nextName .fieldName ts
  let question := eat .question name.stop name.rest
  let colon ← expect .colon question.rest
  let type ← read units colon.rest
  return (type.map fun t => (⟨name.value.1, t, !question.value⟩, name.value.2)).widen (by
    have := name.within
    have := question.within
    have := colon.within
    omega)
termination_by (ts.length, 1)
decreasing_by
  · exact Prod.Lex.left _ _ (by
      have := name.within
      have := question.within
      have := colon.within
      omega)

/-- Read the arguments of a tagged type, as many as follow. -/
def readArgs (units : UnitCatalog) (stop : Nat) (ts : List Lexeme) :
    Except ParseError (Parsed (List (Arg UnitScheme Scheme)) (ts.length + 1)) :=
  match ts with
  | [] => .ok ⟨[], stop, [], by simp⟩
  | l :: rest =>
      if l.token = .lparen then do
        let arg ← readArg units rest
        let close ← expect .rparen arg.rest
        let others ← readArgs units close.stop close.rest
        return (others.map fun args => arg.value :: args).widen (by
          have := arg.within
          have := close.within
          simp only [List.length_cons]
          omega)
      else .ok ⟨[], stop, l :: rest, by simp⟩
termination_by (ts.length, 0)
decreasing_by
  · exact Prod.Lex.left _ _ (by simp)
  · exact Prod.Lex.left _ _ (by
      have := arg.within
      have := close.within
      simp only [List.length_cons]
      omega)

/-- Read one argument, without the parentheses around it. -/
def readArg (units : UnitCatalog) (ts : List Lexeme) :
    Except ParseError (Parsed (Arg UnitScheme Scheme) ts.length) :=
  let brace := eat .lbrace 0 ts
  if brace.value then do
    let unit ← UnitScheme.read units brace.rest
    let close ← expect .rbrace unit.rest
    return (close.map fun _ => .unit unit.value).widen (by
      have := brace.within
      have := unit.within
      omega)
  else do
    let type ← read units ts
    return type.map .type
termination_by (ts.length, 1)
decreasing_by
  · exact Prod.Lex.right _ (by decide)

end

end Scheme

/-- Use a reader on a whole text: every piece of it is a token, and the reader leaves none. -/
def parseAll {α : Type} (reader : (ts : List Lexeme) → Except ParseError (Parsed α ts.length))
    (source : String) : Except ParseError α :=
  match Lexeme.readAll source with
  | .error span => .error (.unreadable span)
  | .ok ts => do
      let r ← reader ts
      match r.rest with
      | [] => return r.value
      | l :: _ => throw (.unexpected l .endOfInput)

/-- Read a whole text as a type. -/
def Scheme.parse (units : UnitCatalog) (source : String) : Except ParseError Scheme :=
  parseAll (Scheme.read units) source

/-- Read a whole text as a unit. -/
def UnitScheme.parse (units : UnitCatalog) (source : String) : Except ParseError UnitScheme :=
  parseAll (UnitScheme.read units) source

end Tabula
