import Tabula.Proofs.Lowering

/-!
# Units without variables on the other levels

A unit without variables is also a written unit and a unit that inference works on: `Measure.lift` puts it there.  The
arithmetic is the same on all three levels, clamping included, so it does not matter on which level a product, a
quotient or a power is formed.

The variables of a written unit can therefore be replaced on either level.  If every name is bound to the same unit on
both sides, both replacements succeed for the same written units, and their results are the same unit.  Types to which
names are bound play no part in this, except that a name bound to a type is no unit.
-/

namespace Tabula

open List (Forall₂)

namespace Measure

variable {ν : Type} [Ord ν]

/-- The atom is the declared unit of this name, without a description. -/
def IsLiftOf (n : Name) (a : Atom ν) : Prop :=
  a = .unit (.named n)

theorem compares_isLiftOf : Product.Compares (IsLiftOf (ν := ν)) := by
  rintro n _ n' _ rfl rfl
  exact (Atom.compare_unit (.named n) (.named n')).symm

omit [Ord ν] in
theorem leftUnique_factor :
    Relator.LeftUnique fun (f : Name × Exponent) (g : Atom ν × Exponent) => Atom.Names f.1 g.1 ∧ f.2 = g.2 := by
  rintro f f' g ⟨⟨w, hw, hname⟩, hpower⟩ ⟨⟨w', hw', hname'⟩, hpower'⟩
  cases hw.symm.trans hw'
  exact Prod.ext (hname.symm.trans hname') (hpower.trans hpower'.symm)

/-- A unit corresponds to one unit without variables at most. -/
theorem eq_of_corresponds {m m' : Measure} {v : Product (Atom ν)} (h : Product.Corresponds Atom.Names m v)
    (h' : Product.Corresponds Atom.Names m' v) : m = m' :=
  Product.eq_of_factors_eq (List.left_unique_forall₂' leftUnique_factor h h')

variable [Std.TransOrd ν]

theorem lift_eq_iff {m : Measure} {v : Product (Atom ν)} : m.lift = v ↔ Product.Corresponds IsLiftOf m v := by
  constructor
  · rintro rfl
    rw [Product.Corresponds, factors_lift, Product.FactorsAgree, List.forall₂_map_right_iff]
    exact List.forall₂_same.2 fun _ _ => ⟨rfl, rfl⟩
  · intro h
    refine Product.eq_of_factors_eq ?_
    rw [factors_lift, ← List.forall₂_eq_eq_eq, List.forall₂_map_left_iff]
    exact h.imp fun f g hfg => Prod.ext hfg.1.symm hfg.2

/-- What corresponds to a unit is equal to its lift: the two differ in descriptions at most. -/
theorem corresponds_names_iff {m : Measure} {v : Product (Atom ν)} :
    Product.Corresponds Atom.Names m v ↔ v == m.lift := by
  have hatom (n : Name) (a : Atom ν) : Atom.Names n a ↔ compare a (.unit (.named n)) = .eq := by
    rw [Std.OrientedCmp.eq_comm, Atom.compare_unit_eq_iff]
    rfl
  rw [Product.beq_iff, factors_lift, List.forall₂_map_right_iff]
  constructor
  · intro h
    exact h.flip.imp fun g f hfg => ⟨(hatom f.1 g.1).1 hfg.1, hfg.2.symm⟩
  · intro h
    exact h.flip.imp fun f g hgf => ⟨(hatom f.1 g.1).2 hgf.1, hgf.2.symm⟩

/-- An embedding of the units without variables: equal images come from the same unit, and it makes no difference
whether units are multiplied, divided and raised to powers before they are embedded or afterwards. -/
structure Embeds (f : Measure → Product (Atom ν)) : Prop where
  injective : ∀ x y, f x == f y → x = y
  times : ∀ x y : Measure, f (x.times y) = (f x).times (f y)
  divide : ∀ x y : Measure, f (x.divide y) = (f x).divide (f y)
  raise : ∀ (x : Measure) (n : Exponent), f (x.raise n) = (f x).raise n

theorem embeds_lift : Embeds (lift : Measure → Product (Atom ν)) where
  injective := by
    intro x y h
    have hy : Product.Corresponds Atom.Names y (x.lift : Product (Atom ν)) := corresponds_names_iff.2 h
    exact eq_of_corresponds (corresponds_lift x) hy
  times := by
    intro x y
    exact lift_eq_iff.2 ((lift_eq_iff.1 rfl).times compares_isLiftOf (lift_eq_iff.1 rfl))
  divide := by
    intro x y
    exact lift_eq_iff.2 ((lift_eq_iff.1 rfl).times compares_isLiftOf ((lift_eq_iff.1 rfl).raise .negOne))
  raise := by
    intro x n
    exact lift_eq_iff.2 ((lift_eq_iff.1 rfl).raise n)

end Measure

/-- Every name is bound to the same unit on both sides, or to types, or on neither side. -/
def TermBindings.LiftsUnits (b : TermBindings) (s : Substitution) : Prop :=
  ∀ name, Option.Rel (Arg.Agree (fun (m : Measure) (v : UnitTerm) => v == m.lift) fun _ _ => True)
    (s.get? name) (b.get? name)

theorem Substitution.exists_liftsUnits (s : Substitution) : ∃ b : TermBindings, b.LiftsUnits s := by
  refine Bindings.exists_rel_get? fun entry _ => ?_
  cases entry.2 with
  | unit m => exact ⟨.unit m.lift, .unit (Product.beq_refl _)⟩
  | type d => exact ⟨.type default, .type trivial⟩

namespace TermBindings.LiftsUnits

variable {b : TermBindings} {s : Substitution} {a : Atom Name} {u : UnitScheme} {m : Measure} {v : UnitTerm}

/-- A factor has a value on both sides or on neither. -/
theorem atom (h : b.LiftsUnits s) (a : Atom Name) :
    (∃ m v, s.atom a = .ok m ∧ b.atom a = .ok v ∧ Product.Corresponds Atom.Names m v) ∨
      (∃ err, s.atom a = .error err) ∧ ∃ err, b.atom a = .error err := by
  cases a with
  | unit w => exact .inl ⟨_, _, rfl, rfl, .single ⟨w, rfl, rfl⟩⟩
  | var name =>
      have hrel := h name
      simp only [Substitution.atom, TermBindings.atom, Bindings.unit]
      generalize s.get? name = value, b.get? name = value' at hrel ⊢
      cases hrel with
      | none => exact .inr ⟨⟨_, rfl⟩, _, rfl⟩
      | some hagree =>
          cases hagree with
          | unit h => exact .inl ⟨_, _, rfl, rfl, Measure.corresponds_names_iff.2 h⟩
          | type => exact .inr ⟨⟨_, rfl⟩, _, rfl⟩

theorem exists_atom (h : b.LiftsUnits s) (hv : b.atom a = .ok v) :
    ∃ m, s.atom a = .ok m ∧ Product.Corresponds Atom.Names m v := by
  rcases h.atom a with ⟨m, v', hm, hv', hmv⟩ | ⟨-, err, herr⟩
  · cases hv.symm.trans hv'
    exact ⟨m, hm, hmv⟩
  · cases hv.symm.trans herr

/-- What a written unit becomes among the terms is what it becomes without variables. -/
theorem exists_toMeasure (h : b.LiftsUnits s) (hv : UnitScheme.toTerm b u = .ok v) :
    ∃ m, UnitScheme.toMeasure s u = .ok m ∧ Product.Corresponds Atom.Names m v := by
  obtain ⟨terms, hterms, rfl⟩ := Product.bindM_eq_ok_iff.1 hv
  have hfactor : ∀ (g : Atom Name × Exponent) (y : UnitTerm × Exponent), b.atom g.1 = .ok y.1 ∧ g.2 = y.2 →
      ∃ x : Measure × Exponent, (s.atom g.1 = .ok x.1 ∧ g.2 = x.2) ∧
        Product.Corresponds Atom.Names x.1 y.1 ∧ x.2 = y.2 := by
    rintro g y ⟨hy, hpower⟩
    obtain ⟨m, hm, hmv⟩ := h.exists_atom hy
    exact ⟨(m, g.2), ⟨hm, rfl⟩, hmv, hpower⟩
  obtain ⟨values, hground, hagree⟩ := exists_forall₂_between hterms hfactor
  exact ⟨_, Product.bindM_eq_ok_iff.2 ⟨values, hground, rfl⟩, .ofPowers Atom.compares_names hagree⟩

theorem exists_toTerm (h : b.LiftsUnits s) (hm : UnitScheme.toMeasure s u = .ok m) :
    ∃ v, UnitScheme.toTerm b u = .ok v := by
  -- A unit with a value has a value at each factor, and so has its term.
  refine Product.exists_bindM_eq_ok_iff.2 fun a ha => ?_
  obtain ⟨_, hx⟩ := Product.exists_bindM_eq_ok_iff.1 ⟨m, hm⟩ a ha
  rcases h.atom a with ⟨_, v, -, hv, -⟩ | ⟨⟨_, herr⟩, -⟩
  · exact ⟨v, hv⟩
  · cases hx.symm.trans herr

theorem toMeasure_eq_ok_iff (h : b.LiftsUnits s) :
    UnitScheme.toMeasure s u = .ok m ↔ ∃ v, UnitScheme.toTerm b u = .ok v ∧ v == m.lift := by
  constructor
  · intro hm
    obtain ⟨v, hv⟩ := h.exists_toTerm hm
    obtain ⟨m', hm', hagree⟩ := h.exists_toMeasure hv
    cases hm.symm.trans hm'
    exact ⟨v, hv, Measure.corresponds_names_iff.1 hagree⟩
  · rintro ⟨v, hv, hlift⟩
    obtain ⟨m', hm', hagree⟩ := h.exists_toMeasure hv
    rw [hm', Measure.eq_of_corresponds hagree (Measure.corresponds_names_iff.2 hlift)]

end TermBindings.LiftsUnits

/-- The three levels of units agree.  Units without variables are embedded in both of the other levels, and read back
from the terms as they were.  Replacing the variables of a written unit by units without variables, or by the same units
among the terms, gives the same. -/
theorem Measure.levels_agree :
    Embeds (lift : Measure → UnitScheme) ∧ Embeds (lift : Measure → UnitTerm) ∧
    (∀ x : Measure, UnitTerm.toMeasure? x.lift = some x) ∧
    ∀ s : Substitution, (∃ b : TermBindings, b.LiftsUnits s) ∧ ∀ b : TermBindings, b.LiftsUnits s →
      ∀ (a : UnitScheme) (x : Measure),
        UnitScheme.toMeasure s a = .ok x ↔ ∃ v, UnitScheme.toTerm b a = .ok v ∧ v == x.lift := by
  refine ⟨embeds_lift, embeds_lift, fun x => toMeasure?_of_corresponds (corresponds_lift x), fun s => ?_⟩
  exact ⟨s.exists_liftsUnits, fun b hb a x => hb.toMeasure_eq_ok_iff⟩

/-- A power is clamped on both levels before it is made smaller again, and the term has a description that the unit
without variables has not.  A name that is bound to different types has no value as a unit on either level. -/
theorem Measure.levels_agree_of_clamped_power :
    let top : Exponent := .clamp 2147483647
    let s : Substitution := ⟨[("t", .type (.primitive .text)), ("u", .unit (.ofFactors [("m", top)]))], by decide⟩
    let b : TermBindings :=
      ⟨[("t", .type (.var 7)), ("u", .unit (.ofFactors [(.unit ⟨"m", "metre"⟩, top)]))], by decide⟩
    let a : UnitScheme := .ofFactors [(.var "u", .clamp 2), (.unit (.named "m"), .negOne)]
    let x : Measure := .ofFactors [("m", .clamp 2147483646)]
    b.LiftsUnits s ∧ UnitScheme.toMeasure s a = .ok x ∧ (∃ v, UnitScheme.toTerm b a = .ok v ∧ v == x.lift) ∧
      ¬ ∃ v, UnitScheme.toTerm b (.single (.var "t")) = .ok v ∧ v == x.lift := by
  intro top s b a x
  have hb : b.LiftsUnits s :=
    Bindings.rel_get?_of_entries (.cons ⟨rfl, .type trivial⟩ (.cons ⟨rfl, .unit (by decide)⟩ .nil))
  have hx : UnitScheme.toMeasure s a = .ok x := by
    simp only [s, a, x, top]
    rfl
  obtain ⟨-, -, -, hreplaced⟩ := levels_agree
  have hagree := (hreplaced s).2 b hb
  refine ⟨hb, hx, (hagree a x).1 hx, fun hv => ?_⟩
  cases (hagree (.single (.var "t")) x).2 hv

end Tabula
