import Tabula.Proofs.ProductRelations
import Tabula.Proofs.UnitValues

/-!
# The powers that a unit stands for

When every unit variable stands for powers of declared units, so does every unit term.  Resolving a unit in
a store keeps its powers, and a store that solves an equation between units makes their powers equal.

Powers are integers here, and all of this is what `UnitValues` says about values in the group of powers.
-/

namespace Tabula

open List (Forall₂)

/-- The powers of the declared units in a unit without variables. -/
def Measure.powers (m : Measure) : Name → Int :=
  m.eval Product.unitPower

theorem Measure.eq_of_powers_eq {m m' : Measure} (h : m.powers = m'.powers) : m = m' := by
  have hfactors := Product.beq_iff.1 (Product.beq_of_eval_unitPower_eq h)
  refine Product.eq_of_factors_eq ?_
  rw [← List.forall₂_eq_eq_eq]
  refine hfactors.imp fun f g hfg => ?_
  exact Prod.ext (Std.LawfulEqOrd.eq_of_compare hfg.1) hfg.2

/-- The powers that an atom stands for. -/
def atomPowers (vars : VarId → Name → Int) : Atom VarId → Name → Int
  | .var id => vars id
  | .unit u => Product.unitPower u.name

theorem respects_atomPowers (vars : VarId → Name → Int) : Product.Respects (atomPowers vars) := by
  intro a b hab
  cases a with
  | var id => rw [Atom.compare_var_eq_iff.1 hab]
  | unit u =>
      obtain ⟨w, rfl, hname⟩ := Atom.compare_unit_eq_iff.1 hab
      rw [atomPowers, atomPowers, hname]

namespace UnitTerm

variable {vars : VarId → Name → Int} {u : UnitTerm}

/-- The powers that a unit stands for. -/
def powers (vars : VarId → Name → Int) (u : UnitTerm) : Name → Int :=
  u.eval (atomPowers vars)

/-- A unit without variables keeps its powers when it is read as one. -/
theorem powers_of_toMeasure? {m : Measure} (h : toMeasure? u = some m) : m.powers = u.powers vars := by
  have hagree := (Measure.corresponds_of_toMeasure? h).flip
  rw [Measure.powers, Product.eval, ← one_smul Int (Product.sumOf _ _)]
  refine Product.smul_sumOf_of_forall₂ (hagree.imp fun f g hfg => ?_)
  obtain ⟨⟨w, hw, hname⟩, hpower⟩ := hfg
  rw [hw, one_smul, hpower, ← hname]
  rfl

end UnitTerm

namespace Store

variable {s s' : Store} {vars : VarId → Name → Int} {u v : UnitTerm}

/-- The unit variables stand for the powers of their values. -/
def UnitsModelledBy (s : Store) (vars : VarId → Name → Int) : Prop :=
  ∀ id u, s.unitValue? id = some u → vars id = u.powers vars

theorem UnitsModelledBy.evaluatedBy (h : s.UnitsModelledBy vars) : s.UnitsEvaluatedBy (atomPowers vars) :=
  h

theorem UnitsModelledBy.of_extends (h : s'.UnitsModelledBy vars) (hextends : s.Extends s') :
    s.UnitsModelledBy vars :=
  h.evaluatedBy.of_extends hextends

/-- Replacing unit variables by their values keeps the powers. -/
theorem UnitsModelledBy.powers_resolve (hs : s.UnitsModelledBy vars) (h : s.ResolvesExactly u) :
    (s.resolve u).powers vars = u.powers vars :=
  hs.evaluatedBy.eval_resolve (respects_atomPowers vars) h

/-- A store that comes from making two units equal gives them the same powers. -/
theorem UnitsModelledBy.powers_eq_of_unifyUnits (hs' : s'.UnitsModelledBy vars) (hs : s.WellFormed)
    (hubelow : UnitTerm.Below s.units.size u) (hvbelow : UnitTerm.Below s.units.size v)
    (hu : s.ResolvesExactly u) (hv : s.ResolvesExactly v) (h : s.unifyUnits u v = .ok s') :
    u.powers vars = v.powers vars :=
  hs'.evaluatedBy.eval_eq_of_unifyUnits (respects_atomPowers vars) hs hubelow hvbelow hu hv h

/-- A well formed store has powers for its variables that are those of their values. -/
theorem WellFormed.exists_unitsModelledBy (hs : s.WellFormed) : ∃ vars, s.UnitsModelledBy vars := by
  obtain ⟨val, hval, hunit, -⟩ := hs.exists_unitsEvaluatedBy (atomPowers fun _ => 0)
  have hpowers : atomPowers (fun id => val (.var id)) = val := by
    funext a
    cases a with
    | var id => rfl
    | unit w => exact (hunit w).symm
  refine ⟨fun id => val (.var id), fun id u hvalue => ?_⟩
  rw [UnitTerm.powers, hpowers]
  exact hval id u hvalue

end Store

end Tabula
