import Tabula.Scheme.ParseError
import Tabula.Token.Lexer

/-!
# Reading written units

A unit is a product of quotients:

    unit     = quotient { "*" quotient }
    quotient = single [ "/" single ]
    single   = "1" | "(" unit ")" | ( NAME | "@unitvar" NAME ) [ "^" INTEGER ]

Every reader takes the lexemes that are left and gives back those that follow what it has read.  A reader
that succeeds has read at least one lexeme, and this is why reading ends.
-/

namespace Tabula

/-- What was read from the front of a list of lexemes.  Fewer than `bound` lexemes are left. -/
structure Parsed (α : Type) (bound : Nat) where
  value : α
  /-- Where the last lexeme that was read ends. -/
  stop : Nat
  /-- The lexemes that follow. -/
  rest : List Lexeme
  within : rest.length < bound

namespace Parsed

/-- Change the value that was read. -/
def map {α β : Type} {n : Nat} (f : α → β) (r : Parsed α n) : Parsed β n :=
  ⟨f r.value, r.stop, r.rest, r.within⟩

/-- Forget how many lexemes were read. -/
def widen {α : Type} {m n : Nat} (r : Parsed α m) (h : m ≤ n) : Parsed α n :=
  ⟨r.value, r.stop, r.rest, Nat.lt_of_lt_of_le r.within h⟩

end Parsed

namespace Lexeme

/-- Where the first lexeme starts. -/
def startOf : List Lexeme → Nat
  | [] => 0
  | l :: _ => l.span.start

/-- Read any lexeme. -/
def next (expected : Expected) : (ts : List Lexeme) → Except ParseError (Parsed Lexeme ts.length)
  | [] => .error (.unexpectedEnd expected)
  | l :: rest => .ok ⟨l, l.span.stop, rest, Nat.lt_succ_self _⟩

/-- Read this token. -/
def expect (t : Token) : (ts : List Lexeme) → Except ParseError (Parsed Lexeme ts.length)
  | [] => .error (.unexpectedEnd (.token t))
  | l :: rest =>
      if l.token = t then .ok ⟨l, l.span.stop, rest, Nat.lt_succ_self _⟩
      else .error (.unexpected l (.token t))

/-- Read a name; keywords are names too. -/
def nextName (expected : Expected) :
    (ts : List Lexeme) → Except ParseError (Parsed (Name × Span) ts.length)
  | [] => .error (.unexpectedEnd expected)
  | l :: rest =>
      match l.token.asName? with
      | some n => .ok ⟨(n, l.span), l.span.stop, rest, Nat.lt_succ_self _⟩
      | none => .error (.unexpected l expected)

/-- Nothing is read unless the first lexeme is this token. -/
def eat (t : Token) (stop : Nat) : (ts : List Lexeme) → Parsed Bool (ts.length + 1)
  | [] => ⟨false, stop, [], Nat.lt_succ_self _⟩
  | l :: rest =>
      if l.token = t then ⟨true, l.span.stop, rest, by simp only [List.length_cons]; omega⟩
      else ⟨false, stop, l :: rest, Nat.lt_succ_self _⟩

end Lexeme

namespace UnitScheme

open Lexeme (expect next nextName startOf)

/-- Read the power of a unit, if one follows. -/
def readPower (u : UnitScheme) (stop : Nat) (ts : List Lexeme) :
    Except ParseError (Parsed UnitScheme (ts.length + 1)) :=
  match ts with
  | [] => .ok ⟨u, stop, [], by simp⟩
  | l :: rest =>
      if l.token = .pow then do
        let exponent ← next .exponent rest
        match exponent.value.token with
        | .int p =>
            match u.raise? p with
            | some v => return ⟨v, exponent.stop, exponent.rest, by
                have := exponent.within
                simp only [List.length_cons]
                omega⟩
            | none => throw (.invalidExponent exponent.value.span)
        | _ => throw (.unexpected exponent.value .exponent)
      else .ok ⟨u, stop, l :: rest, by simp⟩

mutual

/-- Read a product of quotients. -/
def read (units : UnitCatalog) (ts : List Lexeme) :
    Except ParseError (Parsed UnitScheme ts.length) := do
  let first ← readQuotient units ts
  let all ← readFactors units (startOf ts) first.value first.stop first.rest
  return all.widen (by have := first.within; omega)
termination_by (ts.length, 3)
decreasing_by
  · exact Prod.Lex.right _ (by decide)
  · exact Prod.Lex.left _ _ first.within

/-- Read further factors of a product that starts at the byte `start` and has the value `u` so far. -/
def readFactors (units : UnitCatalog) (start : Nat) (u : UnitScheme) (stop : Nat) (ts : List Lexeme) :
    Except ParseError (Parsed UnitScheme (ts.length + 1)) :=
  match ts with
  | [] => .ok ⟨u, stop, [], by simp⟩
  | l :: rest =>
      if l.token = .times then do
        let factor ← readQuotient units rest
        match u.times? factor.value with
        | none => throw (.invalidExponent ⟨start, factor.stop⟩)
        | some v =>
            let all ← readFactors units start v factor.stop factor.rest
            return all.widen (by have := factor.within; simp only [List.length_cons]; omega)
      else .ok ⟨u, stop, l :: rest, by simp⟩
termination_by (ts.length, 0)
decreasing_by
  · exact Prod.Lex.left _ _ (by simp)
  · exact Prod.Lex.left _ _ (by have := factor.within; simp only [List.length_cons]; omega)

/-- Read a single unit, or a quotient of two. -/
def readQuotient (units : UnitCatalog) (ts : List Lexeme) :
    Except ParseError (Parsed UnitScheme ts.length) := do
  let numerator ← readSingle units ts
  match hrest : numerator.rest with
  | [] => return numerator
  | l :: rest =>
      have hlength : rest.length + 1 < ts.length := by
        have := numerator.within
        rw [hrest] at this
        exact this
      if l.token = .div then
        let denominator ← readSingle units rest
        match denominator.rest.head? with
        | some ⟨.div, _, span⟩ => throw (.chainedDivision span)
        | _ =>
            match numerator.value.divideByInverse? denominator.value with
            | none => throw (.invalidExponent ⟨startOf ts, denominator.stop⟩)
            | some v => return (denominator.map fun _ => v).widen (by omega)
      else return numerator
termination_by (ts.length, 2)
decreasing_by
  · exact Prod.Lex.right _ (by decide)
  · exact Prod.Lex.left _ _ (by omega)

/-- Read a single unit. -/
def readSingle (units : UnitCatalog) (ts : List Lexeme) :
    Except ParseError (Parsed UnitScheme ts.length) :=
  match ts with
  | [] => .error (.unexpectedEnd .unit)
  | l :: rest =>
      match l.token with
      | .int p =>
          if p = 1 then .ok ⟨.one, l.span.stop, rest, by simp⟩ else .error (.invalidExponent l.span)
      | .lparen => do
          let inner ← read units rest
          let close ← expect .rparen inner.rest
          return (close.map fun _ => inner.value).widen (by
            have := inner.within
            simp only [List.length_cons]
            omega)
      | .unitVar => do
          let var ← nextName .unitVariable rest
          let u ← readPower (.single (.var var.value.1)) var.stop var.rest
          return u.widen (by have := var.within; simp only [List.length_cons]; omega)
      | t =>
          match t.asName? with
          | none => .error (.unexpected l .unit)
          | some name =>
              match units.get name with
              | .error e => .error (.unknownUnit e)
              | .ok unit => do
                  let u ← readPower (.single (.unit unit)) l.span.stop rest
                  return u.widen (by simp)
termination_by (ts.length, 1)
decreasing_by
  · exact Prod.Lex.left _ _ (by simp)

end

end UnitScheme

end Tabula
