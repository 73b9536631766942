import Tabula.Proofs.AscendingKeys
import Tabula.Proofs.ProductValues

/-!
# Products of atoms that correspond

The arithmetic of products looks at atoms only to compare them.  So if the atoms of two products correspond one
by one, and comparisons of atoms come out the same on both sides, then whatever is computed on one side
corresponds to what is computed on the other side.  Powers are the same throughout, clamped or not.

The case that matters here is a unit without variables and the same unit among those that may mention
variables.
-/

namespace Tabula

open List (Forall₂)

namespace Product

variable {α β : Type} [Ord α] [Ord β] {R : α → β → Prop}

/-- Comparisons come out the same for atoms that correspond. -/
def Compares (R : α → β → Prop) : Prop :=
  ∀ a b a' b', R a b → R a' b' → compare a a' = compare b b'

/-- The factors are powers of atoms that correspond. -/
def FactorsAgree (R : α → β → Prop) : List (α × Exponent) → List (β × Exponent) → Prop :=
  Forall₂ fun f g => R f.1 g.1 ∧ f.2 = g.2

/-- The products have the same powers of atoms that correspond. -/
def Corresponds (R : α → β → Prop) (u : Product α) (v : Product β) : Prop :=
  FactorsAgree R u.factors v.factors

section Factors

variable {a : α} {b : β} {p : Exponent} {fs : List (α × Exponent)} {gs : List (β × Exponent)}

theorem FactorsAgree.powerIn_eq (hR : Compares R) (hab : R a b) (h : FactorsAgree R fs gs) :
    powerIn a fs = powerIn b gs := by
  induction h with
  | nil => rfl
  | cons hfg _ ih => rw [powerIn, powerIn, hR _ _ _ _ hab hfg.1, hfg.2, ih]

theorem FactorsAgree.setIn (hR : Compares R) (hab : R a b) (h : FactorsAgree R fs gs) :
    FactorsAgree R (setIn a p fs) (setIn b p gs) := by
  induction h with
  | nil =>
      by_cases hp : p = 0
      · simp only [Product.setIn, hp, if_true]
        exact .nil
      · simp only [Product.setIn, hp, if_false]
        exact .cons ⟨hab, rfl⟩ .nil
  | @cons f g fs gs hfg hrest ih =>
      rw [Product.setIn, Product.setIn, hR _ _ _ _ hab hfg.1]
      cases compare b g.1 with
      | lt =>
          by_cases hp : p = 0
          · simp only [hp, if_true]
            exact .cons hfg hrest
          · simp only [hp, if_false]
            exact .cons ⟨hab, rfl⟩ (.cons hfg hrest)
      | eq =>
          by_cases hp : p = 0
          · simp only [hp, if_true]
            exact hrest
          · simp only [hp, if_false]
            exact .cons ⟨hfg.1, rfl⟩ hrest
      | gt => exact .cons hfg ih

end Factors

namespace Corresponds

variable {u u' : Product α} {v v' : Product β}

theorem one : Corresponds R (Product.one : Product α) (Product.one : Product β) :=
  .nil

theorem single {a : α} {b : β} (h : R a b) : Corresponds R (.single a) (.single b) :=
  .cons ⟨h, rfl⟩ .nil

theorem raise (h : Corresponds R u v) (n : Exponent) : Corresponds R (u.raise n) (v.raise n) := by
  refine List.rel_filterMap (fun f g hfg => ?_) h
  obtain ⟨hatom, hpower⟩ := hfg
  rw [raiseFactor, raiseFactor, hpower]
  split
  · exact .none
  · exact .some ⟨hatom, rfl⟩

section Multiplication

variable [Std.TransOrd α] [Std.TransOrd β]

theorem addPower (hR : Compares R) (h : Corresponds R u v) {a : α} {b : β} (hab : R a b) (p : Exponent) :
    Corresponds R (u.addPower a p) (v.addPower b p) := by
  rw [Product.addPower, Product.addPower, power, power, FactorsAgree.powerIn_eq hR hab h]
  exact FactorsAgree.setIn hR hab h

theorem times (hR : Compares R) (h : Corresponds R u v) (h' : Corresponds R u' v') :
    Corresponds R (u.times u') (v.times v') := by
  rw [Product.times, Product.times]
  change FactorsAgree R u'.factors v'.factors at h'
  generalize u'.factors = fs at h' ⊢
  generalize v'.factors = gs at h' ⊢
  induction h' generalizing u v with
  | nil => exact h
  | cons hfg _ ih =>
      obtain ⟨hatom, hpower⟩ := hfg
      rw [List.foldl_cons, List.foldl_cons, hpower]
      exact ih (h.addPower hR hatom _)

theorem ofPowers (hR : Compares R) {us : List (Product α × Exponent)} {vs : List (Product β × Exponent)}
    (h : Forall₂ (fun x y => Corresponds R x.1 y.1 ∧ x.2 = y.2) us vs) :
    Corresponds R (Product.ofPowers us) (Product.ofPowers vs) := by
  have hfold : ∀ {u : Product α} {v : Product β}, Corresponds R u v →
      Corresponds R (us.foldl (fun w f => w.times (f.1.raise f.2)) u)
        (vs.foldl (fun w f => w.times (f.1.raise f.2)) v) := by
    induction h with
    | nil => exact fun h => h
    | cons hxy _ ih =>
        intro u v h
        obtain ⟨hproduct, hpower⟩ := hxy
        rw [List.foldl_cons, List.foldl_cons, hpower]
        exact ih (h.times hR (hproduct.raise _))
  exact hfold .one

end Multiplication

end Corresponds

end Product

/-- The atom is the declared unit of this name. -/
def Atom.Names {ν : Type} (n : Name) (a : Atom ν) : Prop :=
  ∃ w, a = .unit w ∧ w.name = n

theorem Atom.compares_names {ν : Type} [Ord ν] : Product.Compares (Atom.Names (ν := ν)) := by
  rintro n _ n' _ ⟨w, rfl, rfl⟩ ⟨w', rfl, rfl⟩
  exact (Atom.compare_unit w w').symm

namespace Measure

variable {m : Measure}

theorem factors_lift {ν : Type} [Ord ν] [Std.TransOrd ν] (m : Measure) :
    (m.lift : Product (Atom ν)).factors = m.factors.map fun f => (.unit (.named f.1), f.2) := by
  refine Product.factors_ofFactors ?_ ?_
  · exact List.pairwise_map.2 m.ordered
  · intro f hf
    obtain ⟨g, hg, rfl⟩ := List.mem_map.1 hf
    exact m.nonzero g hg

/-- A unit corresponds to itself among the units that may mention variables. -/
theorem corresponds_lift {ν : Type} [Ord ν] [Std.TransOrd ν] (m : Measure) :
    Product.Corresponds Atom.Names m (m.lift : Product (Atom ν)) := by
  rw [Product.Corresponds, factors_lift, Product.FactorsAgree, List.forall₂_map_right_iff]
  exact List.forall₂_same.2 fun f _ => ⟨⟨_, rfl, rfl⟩, rfl⟩

/-- What corresponds to a unit without variables is read as that unit. -/
theorem toMeasure?_of_corresponds {v : UnitTerm} (h : Product.Corresponds Atom.Names m v) :
    UnitTerm.toMeasure? v = some m := by
  refine Option.bind_eq_some_iff.2 ⟨m.factors, mapM_eq_some_iff.2 (h.flip.imp fun f g hfg => ?_), ?_⟩
  · obtain ⟨⟨w, hw, hname⟩, hpower⟩ := hfg
    rw [hw]
    exact congrArg some (Prod.ext hname hpower.symm)
  · exact congrArg some (Product.eq_of_factors_eq (Product.factors_ofFactors m.ordered m.nonzero))

/-- A unit that is read as a unit without variables corresponds to it. -/
theorem corresponds_of_toMeasure? {v : UnitTerm} (h : UnitTerm.toMeasure? v = some m) :
    Product.Corresponds Atom.Names m v := by
  obtain ⟨factors, hfactors, h⟩ := Option.bind_eq_some_iff.1 h
  cases h
  have hnames : Forall₂ (fun g f => ∃ w, g.1 = .unit w ∧ f = (w.name, g.2)) v.factors factors := by
    refine (mapM_eq_some_iff.1 hfactors).imp fun g f hgf => ?_
    split at hgf
    · cases hgf
    · rename_i w hw
      cases hgf
      exact ⟨w, hw, rfl⟩
  have hascending : Ascending Prod.fst factors := by
    refine Ascending.of_forall₂ hnames v.ordered ?_
    rintro g g' _ _ ⟨w, hw, rfl⟩ ⟨w', hw', rfl⟩ hlt
    rwa [hw, hw'] at hlt
  have hnonzero : ∀ f ∈ factors, f.2 ≠ 0 := by
    intro f hf
    obtain ⟨g, hg, w, -, rfl⟩ := exists_of_forall₂ hnames f hf
    exact v.nonzero g hg
  rw [Product.Corresponds, Product.factors_ofFactors hascending hnonzero]
  refine hnames.flip.imp ?_
  rintro _ g ⟨w, hw, rfl⟩
  exact ⟨⟨w, hw, rfl⟩, rfl⟩

theorem not_mem_atoms_of_corresponds {v : UnitTerm} (h : Product.Corresponds Atom.Names m v) (id : VarId) :
    .var id ∉ v.atoms := by
  intro hmem
  obtain ⟨g, hg, hid⟩ := List.mem_map.1 hmem
  obtain ⟨f, -, ⟨w, hw, -⟩, -⟩ := exists_of_forall₂ h g hg
  rw [hw] at hid
  cases hid

end Measure

end Tabula
