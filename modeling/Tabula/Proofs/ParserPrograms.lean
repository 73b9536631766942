import Mathlib.Logic.Relation
import Tabula.Proofs.ErrorPlaces

/-!
# Reading as a program with a position

The readers of `UnitScheme` and `Scheme` take the lexemes that are left.  Here they are written once more as programs
that keep a position in the whole list, as one would write them by hand: a program can look at the lexeme at the
position, move the position by one, take a lexeme at any index, and call a routine.  The bodies of loops are routines
of their own, which call themselves for the next iteration.

Nothing ensures that a program ends.  The position can leave the list, an index can be out of range, which is a crash,
and routines can call each other for ever.  What happens is told by a relation between programs and outcomes.  That
each routine ends, and ends as its reader does, is proved in `ParserProgress`.
-/

namespace Tabula

namespace Parser

/-- What can be called.  Loops are called once for each iteration. -/
inductive Routine where
  | type
  /-- A function type behind its two opening parentheses. -/
  | function
  /-- The loop over the parameters of a function type. -/
  | params
  /-- A record type behind its opening parenthesis. -/
  | record
  /-- The loop over the fields of a record that follow `fields`. -/
  | fields (fields : List (Field Scheme))
  /-- A tagged type behind its name. -/
  | tagged (name : Name)
  /-- The loop over the arguments of a tagged type. -/
  | args
  | unit
  /-- The loop over the further factors of a product that starts at the byte `start` and has the value `u` so far. -/
  | factors (start : Nat) (u : UnitScheme)
  | quotient
  | single

namespace Routine

/-- What a routine returns. -/
abbrev Value : Routine → Type
  | type | function | record | fields _ | tagged _ => Scheme
  | params => List Scheme
  | args => List (Arg UnitScheme Scheme)
  | unit | factors _ _ | quotient | single => UnitScheme

end Routine

/-- A program that returns a value. -/
inductive Program (α : Type) where
  | done (a : α)
  | fail (e : ParseError)
  /-- Look at the lexeme at the position, if there is one. -/
  | peek (k : Option Lexeme → Program α)
  /-- Move the position by one. -/
  | advance (k : Program α)
  /-- Ask for the position. -/
  | position (k : Nat → Program α)
  /-- Take the lexeme at an index, wherever the position is. -/
  | index (i : Nat) (k : Lexeme → Program α)
  | call (r : Routine) (k : r.Value → Program α)

namespace Program

variable {α β : Type}

protected def bind : Program α → (α → Program β) → Program β
  | done a, f => f a
  | fail e, _ => fail e
  | peek k, f => peek fun l => (k l).bind f
  | advance k, f => advance (k.bind f)
  | position k, f => position fun pos => (k pos).bind f
  | index i k, f => index i fun l => (k l).bind f
  | call r k, f => call r fun v => (k v).bind f

instance : Monad Program where
  pure := done
  bind := Program.bind

/-- Any lexeme. -/
def next (expected : Expected) : Program Lexeme :=
  peek fun l =>
    match l with
    | none => fail (.unexpectedEnd expected)
    | some l => advance (done l)

/-- Move on if this token stands at the position. -/
def eat (t : Token) : Program Bool :=
  peek fun l => if l.map Lexeme.token = some t then advance (done true) else done false

def expect (t : Token) : Program Lexeme := do
  let l ← next (.token t)
  if l.token = t then done l else fail (.unexpected l (.token t))

/-- A name, and where it stands; keywords are names too. -/
def name (expected : Expected) : Program (Name × Span) := do
  let l ← next expected
  match l.token.asName? with
  | some n => done (n, l.span)
  | none => fail (.unexpected l expected)

/-- Where the lexeme at the position starts, or where the text of this size ends. -/
def offset (size : Nat) : Program Nat :=
  peek fun l => done (l.elim size fun l => l.span.start)

/-- The place from the byte `start` to the end of the last lexeme before the position. -/
def spanFrom (start : Nat) : Program Span :=
  position fun pos =>
    if pos = 0 then done ⟨start, start⟩ else index (pos - 1) fun l => done ⟨start, l.span.stop⟩

/-- Refuse a second slash. -/
def refuseDiv : Program Unit :=
  peek fun l =>
    if l.map Lexeme.token = some .div then position fun pos => index pos fun l => fail (.chainedDivision l.span)
    else done ()

/-- A unit to the power that follows, if one does. -/
def power (u : UnitScheme) : Program UnitScheme := do
  let pow ← eat .pow
  if pow then
    let exponent ← next .exponent
    match exponent.token with
    | .int p =>
        match u.raise? p with
        | some v => done v
        | none => fail (.invalidExponent exponent.span)
    | _ => fail (.unexpected exponent .exponent)
  else done u

/-- Call a routine and return what it returns. -/
def run (r : Routine) : Program r.Value :=
  call r done

/-- The unit of a number, if one follows. -/
def number : Program Scheme := do
  let brace ← eat .lbrace
  if brace then
    let u ← run .unit
    let _ ← expect .rbrace
    done (.number u)
  else done (.number .one)

/-- One argument of a tagged type, without the parentheses around it. -/
def arg : Program (Arg UnitScheme Scheme) := do
  let brace ← eat .lbrace
  if brace then
    let u ← run .unit
    let _ ← expect .rbrace
    done (.unit u)
  else
    let t ← run .type
    done (.type t)

/-- One field of a record, and where its name stands. -/
def field : Program (Field Scheme × Span) := do
  let n ← name .fieldName
  let question ← eat .question
  let _ ← expect .colon
  let t ← run .type
  done (⟨n.1, t, !question⟩, n.2)

/-- The parameters of a function type, possibly none, and the closing parenthesis. -/
def paramList : Program (List Scheme) := do
  let close ← eat .rparen
  if close then done [] else run .params

end Program

open Program in
/-- What a routine does, in a text of this size. -/
def body (units : UnitCatalog) (size : Nat) : (r : Routine) → Program r.Value
  | .type => do
      let l ← next .type
      match l.token with
      | .keyword k =>
          match Scheme.primitive? k with
          | some p => done (.primitive p)
          | none => number
      | .lbracket =>
          let t ← run .type
          let _ ← expect .rbracket
          done (.array t)
      | .lparen =>
          let function ← eat .lparen
          if function then run .function else run .record
      | .name n => run (.tagged n)
      | _ => fail (.unexpected l .type)
  | .function => do
      let params ← paramList
      let _ ← expect .arrow
      let result ← run .type
      let _ ← expect .rparen
      done (.function params result)
  | .params => do
      let t ← run .type
      let mark ← next .commaOrClose
      match mark.token with
      | .comma =>
          let ts ← run .params
          done (t :: ts)
      | .rparen => done [t]
      | _ => fail (.unexpected mark .commaOrClose)
  | .record => do
      let close ← eat .rparen
      if close then done (.record [] true) else run (.fields [])
  | .fields fields => do
      let dots ← eat .ellipsis
      if dots then
        let _ ← expect .rparen
        done (.record fields false)
      else
        let f ← field
        if (Field.find? f.1.name fields).isSome then fail (.duplicateField f.2 f.1.name)
        else
          let mark ← next .commaOrClose
          match mark.token with
          | .comma => run (.fields (Field.insert f.1 fields))
          | .rparen => done (.record (Field.insert f.1 fields) true)
          | _ => fail (.unexpected mark .commaOrClose)
  | .tagged n => do
      let as ← run .args
      done (Scheme.tagged n as)
  | .args => do
      let more ← eat .lparen
      if more then
        let a ← arg
        let _ ← expect .rparen
        let as ← run .args
        done (a :: as)
      else done []
  | .unit => do
      let start ← offset size
      let u ← run .quotient
      run (.factors start u)
  | .factors start u => do
      let more ← eat .times
      if more then
        let v ← run .quotient
        match u.times? v with
        | some w => run (.factors start w)
        | none =>
            let span ← spanFrom start
            fail (.invalidExponent span)
      else done u
  | .quotient => do
      let start ← offset size
      let u ← run .single
      let divided ← eat .div
      if divided then
        let v ← run .single
        refuseDiv
        match u.divideByInverse? v with
        | some w => done w
        | none =>
            let span ← spanFrom start
            fail (.invalidExponent span)
      else done u
  | .single => do
      let l ← next .unit
      match l.token with
      | .int p => if p = 1 then done .one else fail (.invalidExponent l.span)
      | .lparen =>
          let u ← run .unit
          let _ ← expect .rparen
          done u
      | .unitVar =>
          let n ← name .unitVariable
          power (.single (.var n.1))
      | t =>
          match t.asName? with
          | none => fail (.unexpected l .unit)
          | some n =>
              match units.get n with
              | .error e => fail (.unknownUnit e)
              | .ok u => power (.single (.unit u))

/-- How a program ends. -/
inductive Outcome (α : Type) where
  /-- With a value, at a position. -/
  | value (a : α) (pos : Nat)
  | error (e : ParseError)
  /-- An index was out of range. -/
  | crash

section Semantics

variable (units : UnitCatalog) (size : Nat) (ts : List Lexeme)

/-- The program ends with this outcome when it is started at this position.  There are no rules for a program that does
not end. -/
inductive Runs : {α : Type} → Program α → Nat → Outcome α → Prop where
  | done {α : Type} {a : α} {pos : Nat} : Runs (.done a) pos (.value a pos)
  | fail {α : Type} {e : ParseError} {pos : Nat} : Runs (.fail e : Program α) pos (.error e)
  | peek {α : Type} {k : Option Lexeme → Program α} {pos : Nat} {o : Outcome α} (h : Runs (k (ts[pos]?)) pos o) :
      Runs (.peek k) pos o
  | advance {α : Type} {k : Program α} {pos : Nat} {o : Outcome α} (h : Runs k (pos + 1) o) : Runs (.advance k) pos o
  | position {α : Type} {k : Nat → Program α} {pos : Nat} {o : Outcome α} (h : Runs (k pos) pos o) :
      Runs (.position k) pos o
  | index {α : Type} {i : Nat} {k : Lexeme → Program α} {pos : Nat} {l : Lexeme} {o : Outcome α}
      (hl : ts[i]? = some l) (h : Runs (k l) pos o) : Runs (.index i k) pos o
  | outOfRange {α : Type} {i : Nat} {k : Lexeme → Program α} {pos : Nat} (hl : ts[i]? = none) :
      Runs (.index i k) pos .crash
  | call {α : Type} {r : Routine} {k : r.Value → Program α} {pos pos' : Nat} {v : r.Value} {o : Outcome α}
      (hr : Runs (body units size r) pos (.value v pos')) (h : Runs (k v) pos' o) : Runs (.call r k) pos o
  | callError {α : Type} {r : Routine} {k : r.Value → Program α} {pos : Nat} {e : ParseError}
      (hr : Runs (body units size r) pos (.error e)) : Runs (.call r k) pos (.error e)
  | callCrash {α : Type} {r : Routine} {k : r.Value → Program α} {pos : Nat}
      (hr : Runs (body units size r) pos .crash) : Runs (.call r k) pos .crash

/-- The program comes to a point where this program is left, at this position.  Calls are gone through as a whole. -/
inductive Reaches {α : Type} : Program α → Nat → Program α → Nat → Prop where
  | here {p : Program α} {pos : Nat} : Reaches p pos p pos
  | peek {k : Option Lexeme → Program α} {pos pos' : Nat} {p : Program α} (h : Reaches (k (ts[pos]?)) pos p pos') :
      Reaches (.peek k) pos p pos'
  | advance {k : Program α} {pos pos' : Nat} {p : Program α} (h : Reaches k (pos + 1) p pos') :
      Reaches (.advance k) pos p pos'
  | position {k : Nat → Program α} {pos pos' : Nat} {p : Program α} (h : Reaches (k pos) pos p pos') :
      Reaches (.position k) pos p pos'
  | index {i : Nat} {k : Lexeme → Program α} {pos pos' : Nat} {l : Lexeme} {p : Program α} (hl : ts[i]? = some l)
      (h : Reaches (k l) pos p pos') : Reaches (.index i k) pos p pos'
  | call {r : Routine} {k : r.Value → Program α} {pos mid pos' : Nat} {v : r.Value} {p : Program α}
      (hr : Runs units size ts (body units size r) pos (.value v mid)) (h : Reaches (k v) mid p pos') :
      Reaches (.call r k) pos p pos'

/-- The first routine, started at its position, calls the second one at the second position. -/
def Calls (x y : Routine × Nat) : Prop :=
  ∃ k, Reaches units size ts (body units size x.1) x.2 (.call y.1 k) y.2

/-- The program ends without a crash and moves on only over lexemes that are there.  What it calls is allowed where
it is called, and ends without a crash. -/
inductive RunsSafely (allowed : Routine × Nat → Prop) {α : Type} : Program α → Nat → Outcome α → Prop where
  | done {a : α} {pos : Nat} : RunsSafely allowed (.done a) pos (.value a pos)
  | fail {e : ParseError} {pos : Nat} : RunsSafely allowed (.fail e) pos (.error e)
  | peek {k : Option Lexeme → Program α} {pos : Nat} {o : Outcome α} (h : RunsSafely allowed (k (ts[pos]?)) pos o) :
      RunsSafely allowed (.peek k) pos o
  | advance {k : Program α} {pos : Nat} {o : Outcome α} (hpos : pos < ts.length)
      (h : RunsSafely allowed k (pos + 1) o) : RunsSafely allowed (.advance k) pos o
  | position {k : Nat → Program α} {pos : Nat} {o : Outcome α} (h : RunsSafely allowed (k pos) pos o) :
      RunsSafely allowed (.position k) pos o
  | index {i : Nat} {k : Lexeme → Program α} {pos : Nat} {l : Lexeme} {o : Outcome α} (hl : ts[i]? = some l)
      (h : RunsSafely allowed (k l) pos o) : RunsSafely allowed (.index i k) pos o
  | call {r : Routine} {k : r.Value → Program α} {pos pos' : Nat} {v : r.Value} {o : Outcome α}
      (hallowed : allowed (r, pos)) (hr : Runs units size ts (body units size r) pos (.value v pos'))
      (hpos : pos ≤ pos' ∧ pos' ≤ max pos ts.length) (h : RunsSafely allowed (k v) pos' o) :
      RunsSafely allowed (.call r k) pos o
  | callError {r : Routine} {k : r.Value → Program α} {pos : Nat} {e : ParseError} (hallowed : allowed (r, pos))
      (hr : Runs units size ts (body units size r) pos (.error e)) : RunsSafely allowed (.call r k) pos (.error e)

end Semantics

section Runs

variable {units : UnitCatalog} {size : Nat} {ts : List Lexeme} {α β : Type}

/-- A program ends in one way only. -/
theorem Runs.unique {p : Program α} {pos : Nat} {o o' : Outcome α} (h : Runs units size ts p pos o)
    (h' : Runs units size ts p pos o') : o = o' := by
  induction h with
  | done | fail =>
      cases h'
      rfl
  | peek _ ih =>
      cases h' with
      | peek h' => exact ih h'
  | advance _ ih =>
      cases h' with
      | advance h' => exact ih h'
  | position _ ih =>
      cases h' with
      | position h' => exact ih h'
  | index hl _ ih =>
      cases h' with
      | index hl' h' =>
          obtain rfl := Option.some.inj (hl.symm.trans hl')
          exact ih h'
      | outOfRange hl' =>
          rw [hl] at hl'
          cases hl'
  | outOfRange hl =>
      cases h' with
      | index hl' =>
          rw [hl] at hl'
          cases hl'
      | outOfRange => rfl
  | call _ _ ihr ih =>
      cases h' with
      | call hr h' =>
          cases ihr hr
          exact ih h'
      | callError hr | callCrash hr => cases ihr hr
  | callError _ ihr =>
      cases h' with
      | call hr | callCrash hr => cases ihr hr
      | callError hr =>
          cases ihr hr
          rfl
  | callCrash _ ihr =>
      cases h' with
      | call hr | callError hr => cases ihr hr
      | callCrash => rfl

namespace RunsSafely

variable {allowed : Routine × Nat → Prop} {p : Program α} {pos pos' : Nat} {o : Outcome α}

theorem runs (h : RunsSafely units size ts allowed p pos o) : Runs units size ts p pos o := by
  induction h with
  | done => exact .done
  | fail => exact .fail
  | peek _ ih => exact .peek ih
  | advance _ _ ih => exact .advance ih
  | position _ ih => exact .position ih
  | index hl _ ih => exact .index hl ih
  | call _ hr _ _ ih => exact .call hr ih
  | callError _ hr => exact .callError hr

/-- The position only grows, and stays within the list if it started there. -/
theorem position_le {a : α} (h : RunsSafely units size ts allowed p pos (.value a pos')) :
    pos ≤ pos' ∧ pos' ≤ max pos ts.length := by
  generalize ho : Outcome.value a pos' = o at h
  induction h with
  | done =>
      cases ho
      omega
  | fail | callError => cases ho
  | peek _ ih | position _ ih | index _ _ ih => exact ih ho
  | advance hpos _ ih =>
      have hrest := ih ho
      omega
  | call _ _ hpos _ ih =>
      have hrest := ih ho
      omega

theorem bind {a : α} {f : α → Program β} {o : Outcome β} (h : RunsSafely units size ts allowed p pos (.value a pos'))
    (hf : RunsSafely units size ts allowed (f a) pos' o) : RunsSafely units size ts allowed (p >>= f) pos o := by
  generalize ho : Outcome.value a pos' = o' at h
  induction h with
  | done =>
      cases ho
      exact hf
  | fail | callError => cases ho
  | peek _ ih => exact .peek (ih ho)
  | advance hpos _ ih => exact .advance hpos (ih ho)
  | position _ ih => exact .position (ih ho)
  | index hl _ ih => exact .index hl (ih ho)
  | call hallowed hr hpos _ ih => exact .call hallowed hr hpos (ih ho)

theorem bind_error {e : ParseError} {f : α → Program β} (h : RunsSafely units size ts allowed p pos (.error e)) :
    RunsSafely units size ts allowed (p >>= f) pos (.error e) := by
  generalize ho : Outcome.error e = o at h
  induction h with
  | done => cases ho
  | fail =>
      cases ho
      exact .fail
  | peek _ ih => exact .peek (ih ho)
  | advance hpos _ ih => exact .advance hpos (ih ho)
  | position _ ih => exact .position (ih ho)
  | index hl _ ih => exact .index hl (ih ho)
  | call hallowed hr hpos _ ih => exact .call hallowed hr hpos (ih ho)
  | callError hallowed hr =>
      cases ho
      exact .callError hallowed hr

theorem allowed_of_call {r : Routine} {k : r.Value → Program α}
    (h : RunsSafely units size ts allowed (.call r k) pos o) : allowed (r, pos) := by
  cases h with
  | call hallowed => exact hallowed
  | callError hallowed => exact hallowed

theorem lt_of_index {i : Nat} {k : Lexeme → Program α} (h : RunsSafely units size ts allowed (.index i k) pos o) :
    i < ts.length := by
  cases h with
  | index hl => exact (List.getElem?_eq_some_iff.1 hl).1

/-- Whatever a program comes to, it goes on safely from there. -/
theorem of_reaches {q : Program α} (h : RunsSafely units size ts allowed p pos o)
    (hq : Reaches units size ts p pos q pos') :
    RunsSafely units size ts allowed q pos' o ∧ pos ≤ pos' ∧ pos' ≤ max pos ts.length := by
  induction hq with
  | here => exact ⟨h, by omega⟩
  | peek _ ih =>
      cases h with
      | peek h => exact ih h
  | position _ ih =>
      cases h with
      | position h => exact ih h
  | advance _ ih =>
      cases h with
      | advance hpos h =>
          obtain ⟨hsafe, hle⟩ := ih h
          exact ⟨hsafe, by omega⟩
  | index hl _ ih =>
      cases h with
      | index hl' h =>
          obtain rfl := Option.some.inj (hl.symm.trans hl')
          exact ih h
  | call hr _ ih =>
      cases h with
      | call _ hr' hpos h =>
          cases hr.unique hr'
          obtain ⟨hsafe, hle⟩ := ih h
          exact ⟨hsafe, by omega⟩
      | callError _ hr' => cases hr.unique hr'

end RunsSafely

end Runs

end Parser

end Tabula
