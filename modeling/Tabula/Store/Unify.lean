import Tabula.Store.Basic
import Tabula.Store.UnifyError

/-!
# Unification

`Store.unify` looks for values of the variables that make two terms equal.  It goes through both terms from
left to right and gives values to variables as it needs them.  If the terms cannot be made equal, the values
that were given before the error stay in the store.

Records are compared field by field.  A record that is left open accepts further fields of the other one,
but does not take them over.

Two units are equal if their quotient is `1`.  `Store.unifyUnits` solves this equation for one variable: of
the variables whose power divides all powers of the quotient, one with the smallest power.
-/

namespace Tabula

/-- Steps that change a store.  The store after a failed step is kept. -/
abbrev UnifyM := EStateM UnifyError Store

/-- The store after an attempt to make two terms equal, and how the attempt ended. -/
structure Attempt where
  store : Store
  result : Except UnifyError Unit

namespace UnitTerm

/-- The power divides every power of the unit. -/
def dividesPowers (u : UnitTerm) (p : Exponent) : Bool :=
  u.factors.all fun f => f.2.val % p.val == 0

/-- The first variable with the smallest power, without regard to sign. -/
def smallestPower? : List (VarId × Exponent) → Option (VarId × Exponent)
  | [] => none
  | v :: vars =>
      match smallestPower? vars with
      | none => some v
      | some w => if v.2.val.natAbs ≤ w.2.val.natAbs then some v else some w

/-- The variable for which the equation `u = 1` is solved, with its power. -/
def pivot? (u : UnitTerm) : Option (VarId × Exponent) :=
  smallestPower? ((UnitTerm.vars u).filter fun v => dividesPowers u v.2)

/-- The value of the variable `id`, which has the power `p` in `u`, that solves the equation `u = 1`. -/
def solveFor? (u : UnitTerm) (id : VarId) (p : Exponent) : Option UnitTerm := do
  let others := u.factors.filter fun f => f.1 != .var id
  let factors ← others.mapM fun f => do return (f.1, ← Exponent.ofInt? (-f.2.val / p.val))
  return .ofFactors factors

/-- A variable and its value that solve the equation `u = 1`. -/
def solve? (u : UnitTerm) : Option (VarId × UnitTerm) := do
  let (id, p) ← pivot? u
  return (id, ← solveFor? u id p)

end UnitTerm

namespace Store

/-- Make two units equal. -/
def unifyUnits (s : Store) (expected found : UnitTerm) : Except UnifyError Store :=
  let expected := s.resolve expected
  let found := s.resolve found
  match expected.divide? found with
  | none => .error (.unitMismatch expected found)
  | some quotient =>
      if quotient.isOne then .ok s
      else
        match UnitTerm.solve? quotient with
        | none => .error (.unitMismatch expected found)
        | some (id, value) => .ok (s.assignUnit id value)

end Store

namespace UnifyM

/-- Make two units equal, as a step. -/
def units (expected found : UnitTerm) : UnifyM Unit := do
  match (← get).unifyUnits expected found with
  | .ok s => set s
  | .error e => throw e

/-- Give the variable `id`, which has no value, the value `t`. -/
def bindVar (id : VarId) (t : Term) : UnifyM Unit := do
  let s ← get
  if s.occurs id t then throw (.infiniteType id t)
  else set (s.assignType id t)

/-- Make arguments equal, from left to right. -/
def args (unify : Term → Term → UnifyM Unit) (name : Name) (position : Nat) :
    List (Arg UnitTerm Term) → List (Arg UnitTerm Term) → UnifyM Unit
  | .unit u :: as, .unit v :: bs => do
      units u v
      args unify name (position + 1) as bs
  | .type s :: as, .type t :: bs => do
      unify s t
      args unify name (position + 1) as bs
  | a :: _, b :: _ => throw (.argumentKind name position a.kind b.kind)
  | _, _ => pure ()

/-- Make parameters equal, from left to right. -/
def params (unify : Term → Term → UnifyM Unit) : List Term → List Term → UnifyM Unit
  | s :: ss, t :: ts => do
      unify s t
      params unify ss ts
  | _, _ => pure ()

/-- Make the fields of the second record equal to those of the first one, in order of their names. -/
def fields (unify : Term → Term → UnifyM Unit) (expected : List (Field Term)) (complete : Bool) :
    List (Field Term) → UnifyM Unit
  | [] => pure ()
  | ⟨name, t, required⟩ :: found =>
      match Field.find? name expected with
      | some field =>
          if field.required = required then do
            (unify field.type t).adaptExcept (.inField name)
            fields unify expected complete found
          else throw (.fieldOptionality name)
      | none =>
          if complete then throw (.extraField name) else fields unify expected complete found

/-- The first field of `expected` that is missing from `found`. -/
def missingField? (expected found : List (Field Term)) : Option (Field Term) :=
  expected.find? fun field => (Field.find? field.name found).isNone

/-- Make two terms equal of which neither is a variable with a value, using `unify` for their parts. -/
def roots (unify : Term → Term → UnifyM Unit) : Term → Term → UnifyM Unit
  | .var id, .var other => if id = other then pure () else bindVar id (.var other)
  | .var id, t => bindVar id t
  | t, .var id => bindVar id t
  | .number u, .number v => units u v
  | .primitive p, .primitive q =>
      if p = q then pure () else throw (.typeMismatch (.primitive p) (.primitive q))
  | .tagged name as, .tagged other bs =>
      if name = other then
        if as.length = bs.length then args unify name 0 as bs
        else throw (.taggedArity name as.length bs.length)
      else throw (.typeMismatch (.tagged name as) (.tagged other bs))
  | .record expected expectedComplete, .record found foundComplete => do
      fields unify expected expectedComplete found
      match missingField? expected found with
      | some field => if foundComplete then throw (.missingField field.name) else pure ()
      | none => pure ()
  | .array s, .array t => unify s t
  | .function ps r, .function qs s =>
      if ps.length = qs.length then do
        params unify ps qs
        unify r s
      else throw (.functionArity ps.length qs.length)
  | expected, found => throw (.typeMismatch expected found)

/-- Make two terms equal, going down at most `levels` levels through terms and values. -/
def within : Nat → Term → Term → UnifyM Unit
  | 0, _, _ => throw .cyclicStore
  | levels + 1, expected, found => do
      let s ← get
      roots (within levels) (s.walk expected) (s.walk found)

end UnifyM

namespace Store

/-- The greatest number of levels of a value in the store. -/
def valueDepth (s : Store) : Nat :=
  s.types.foldl (fun d value => max d ((value.map Term.depth).getD 0)) 0

/-- How many type variables have no value. -/
def openCount (s : Store) : Nat :=
  s.types.foldl (fun n value => if value.isNone then n + 1 else n) 0

/-- A number of levels that unification cannot exceed.  A term with all values put in place has at most one
stretch of `depth` levels for itself and for every variable, and such a term can grow only when an open
variable gets a value. -/
def levelBound (s : Store) (expected found : Term) : Nat :=
  let depth := max s.valueDepth (max expected.depth found.depth)
  (s.openCount + 1) * ((s.types.size + 1) * (depth + 1) + 1)

/-- Make two terms equal. -/
def unify (s : Store) (expected found : Term) : Attempt :=
  match UnifyM.within (s.levelBound expected found) expected found s with
  | .ok _ store => ⟨store, .ok ()⟩
  | .error e store => ⟨store, .error e⟩

end Store

end Tabula
