import Tabula.Proofs.ExactPowers
import Tabula.Proofs.Lowering

/-!
# Replacing variables in products, quotients and powers

Putting units in the place of the variables of a written unit goes with the algebra of units: a product of two written
units becomes the product of what they become, and the same holds for quotients and powers.  It makes no difference
whether factors cancel before the variables are replaced or after it.

Written units are multiplied out factor by factor, so there are many places where a power can be clamped, and then the
two ways need not agree.  What is said here is said where no power is clamped.  `Product.ReplacesInRange` spells this
out for the replacement of variables: the exact power of each value fits, and so does each exact partial product.
-/

namespace Tabula

open List (Forall₂)

namespace Product

variable {α β ε : Type} [Ord α] [Ord β]

/-- Every power that is formed fits when powers of products are multiplied out from left to right: those of the powers
of the products, and those of the products of the first of them. -/
structure FitsThroughout (us : List (Product β × Exponent)) : Prop where
  powers : ∀ x ∈ us, ∀ b, Exponent.Fits ((x.1.power b).val * x.2.val)
  products : ∀ first, first <+: us → ∀ b, Exponent.Fits (sumOf (fun x => (x.power b).val) first)

/-- Every power that is formed fits when the atoms are replaced. -/
def ReplacesInRange (u : Product α) (f : α → Except ε (Product β)) : Prop :=
  ∀ values, Forall₂ (fun g x => f g.1 = .ok x.1 ∧ g.2 = x.2) u.factors values → FitsThroughout values

section Range

variable {us : List (Product β × Exponent)} {x : Product β × Exponent} {w : Product β}

theorem fitsThroughout_nil : FitsThroughout ([] : List (Product β × Exponent)) where
  powers := by simp
  products := by
    intro first hfirst b
    rw [List.prefix_nil.1 hfirst]
    exact (0 : Exponent).fits_val

theorem fitsThroughout_concat_iff :
    FitsThroughout (us ++ [x]) ↔ FitsThroughout us ∧ (∀ b, Exponent.Fits ((x.1.power b).val * x.2.val)) ∧
      ∀ b, Exponent.Fits (sumOf (fun x => (x.power b).val) (us ++ [x])) := by
  constructor
  · intro h
    refine ⟨⟨fun y hy => h.powers y (List.mem_append_left _ hy), fun first hfirst => ?_⟩, ?_, ?_⟩
    · exact h.products first (hfirst.trans (List.prefix_append _ _))
    · exact h.powers x (by simp)
    · exact h.products _ List.prefix_rfl
  · rintro ⟨hus, hx, hproduct⟩
    refine ⟨fun y hy => ?_, fun first hfirst => ?_⟩
    · rcases List.mem_append.1 hy with hy | hy
      · exact hus.powers y hy
      · rw [List.mem_singleton.1 hy]
        exact hx
    · rcases List.prefix_concat_iff.1 hfirst with rfl | hfirst
      · exact hproduct
      · exact hus.products first hfirst

theorem sumOf_apply {γ δ : Type} (val : γ → δ → Int) (fs : List (γ × Exponent)) (d : δ) :
    sumOf val fs d = sumOf (fun c => val c d) fs := by
  induction fs with
  | nil => rfl
  | cons f fs ih => rw [sumOf_cons, sumOf_cons, Pi.add_apply, Pi.smul_apply, ih]

variable [Std.TransOrd β]

theorem power_of_ofPowers? (h : ofPowers? us = some w) (b : β) :
    (w.power b).val = sumOf (fun x => (x.power b).val) us := by
  have hvalue := congrFun (eval_of_ofPowers? respects_unitPower h) b
  rw [eval_unitPower, sumOf_apply] at hvalue
  simpa only [eval_unitPower] using hvalue

/-- The checked product of powers is there exactly if every power that is formed fits. -/
theorem exists_ofPowers?_iff : (∃ w, ofPowers? us = some w) ↔ FitsThroughout us := by
  -- The run goes from left to right, so what the last step adds is split off at the end of the list.
  induction us using List.reverseRecOn with
  | nil => exact iff_of_true ⟨one, rfl⟩ fitsThroughout_nil
  | append_singleton us x ih =>
      have hlast : ∀ w, ofPowers? (us ++ [x]) = some w ↔
          ∃ u v, ofPowers? us = some u ∧ x.1.raise? x.2 = some v ∧ u.times? v = some w := by
        intro w
        simp [ofPowers?, List.foldlM_append, Option.bind_eq_some_iff]
      rw [fitsThroughout_concat_iff, ← ih]
      constructor
      · rintro ⟨w, hw⟩
        obtain ⟨u, v, hu, hv, -⟩ := (hlast w).1 hw
        refine ⟨⟨u, hu⟩, fits_of_raise? hv, fun b => ?_⟩
        rw [← power_of_ofPowers? hw]
        exact Exponent.fits_val _
      · rintro ⟨⟨u, hu⟩, hx, hproduct⟩
        have hv := raise?_of_fits hx
        have hfits : ∀ b, Exponent.Fits ((u.power b).val + ((x.1.raise x.2).power b).val) := by
          intro b
          have hsum := hproduct b
          rw [sumOf, List.map_append, List.sum_append, List.map_singleton, List.sum_singleton] at hsum
          rw [power_of_ofPowers? hu, power_of_raise? hv, sumOf, Int.mul_comm]
          exact hsum
        exact ⟨_, (hlast _).2 ⟨u, _, hu, hv, times?_of_fits hfits⟩⟩

/-- No power is clamped when the atoms are replaced, if the exact powers fit. -/
theorem replacesInRange_iff {u : Product α} {f : α → Except ε (Product β)} :
    u.ReplacesInRange f ↔ u.BindsExactly f := by
  constructor
  · intro h w hw
    obtain ⟨values, hvalues, -⟩ := bindM_eq_ok_iff.1 hw
    obtain ⟨w', hw'⟩ := exists_ofPowers?_iff.2 (h values hvalues)
    refine Option.isSome_iff_exists.2 ⟨w', bind?_eq_some_iff.2 ⟨values, hvalues.imp fun g x hgx => ?_, hw'⟩⟩
    exact ⟨toOption_eq_some_iff.2 hgx.1, hgx.2⟩
  · intro h values hvalues
    have hbind := h.bind?_eq (bindM_eq_ok_iff.2 ⟨values, hvalues, rfl⟩)
    obtain ⟨values', hvalues', hpowers⟩ := bind?_eq_some_iff.1 hbind
    rw [← values_eq_of_toOption hvalues hvalues'] at hpowers
    exact exists_ofPowers?_iff.1 ⟨_, hpowers⟩

end Range

section Value

variable {G : Type} [AddCommGroup G] {val : α → G} [Std.TransOrd α] {u v : Product α} {p : Exponent}

theorem eval_times_of_fits (hval : Respects val) (h : ∀ a, Exponent.Fits ((u.power a).val + (v.power a).val)) :
    (u.times v).eval val = u.eval val + v.eval val :=
  eval_of_times? hval (times?_of_fits h)

theorem eval_raise_of_fits (h : ∀ a, Exponent.Fits ((u.power a).val * p.val)) :
    (u.raise p).eval val = p.val • u.eval val :=
  eval_of_raise? (raise?_of_fits h)

theorem eval_divide_of_fits (hval : Respects val) (hv : ∀ a, Exponent.Fits (-(v.power a).val))
    (h : ∀ a, Exponent.Fits ((u.power a).val - (v.power a).val)) :
    (u.divide v).eval val = u.eval val - v.eval val := by
  have hinverse : ∀ a, Exponent.Fits ((v.power a).val * Exponent.negOne.val) := by
    intro a
    rw [Exponent.val_negOne, Int.mul_neg_one]
    exact hv a
  have hquotient : ∀ a, Exponent.Fits ((u.power a).val + ((v.raise .negOne).power a).val) := by
    intro a
    rw [power_raise, Exponent.val_clamp_of_fits (hinverse a), Exponent.val_negOne, Int.mul_neg_one,
      ← Int.sub_eq_add_neg]
    exact h a
  rw [divide, eval_times_of_fits hval hquotient, eval_raise_of_fits hinverse, Exponent.val_negOne, neg_one_smul,
    ← sub_eq_add_neg]

end Value

end Product

namespace Measure

variable {x y z : Measure} {p : Exponent}

theorem powers_apply (m : Measure) (n : Name) : m.powers n = (m.power n).val :=
  Product.eval_unitPower m n

/-- A unit with the sums of the powers is the product: it shows that the sums fit. -/
theorem times_eq_of_powers (h : z.powers = x.powers + y.powers) : x.times y = z := by
  refine eq_of_powers_eq (funext fun n => ?_)
  have hsum : (x.power n).val + (y.power n).val = (z.power n).val := by
    rw [← powers_apply, ← powers_apply, ← powers_apply, h, Pi.add_apply]
  rw [powers_apply, powers_apply, Product.power_times, hsum, Exponent.clamp_val]

theorem raise_eq_of_powers (h : z.powers = p.val • x.powers) : x.raise p = z := by
  refine eq_of_powers_eq (funext fun n => ?_)
  have hproduct : (x.power n).val * p.val = (z.power n).val := by
    rw [← powers_apply, ← powers_apply, h, Pi.smul_apply, smul_eq_mul, Int.mul_comm]
  rw [powers_apply, powers_apply, Product.power_raise, hproduct, Exponent.clamp_val]

theorem divide_eq_of_powers (hy : ∀ n, Exponent.Fits (-(y.power n).val)) (h : z.powers = x.powers - y.powers) :
    x.divide y = z := by
  have hinverse : powers (y.raise .negOne) = -y.powers := by
    funext n
    have hn := hy n
    rw [← Int.mul_neg_one] at hn
    rw [powers_apply, Product.power_raise, Exponent.val_negOne, Exponent.val_clamp_of_fits hn, Int.mul_neg_one,
      Pi.neg_apply, powers_apply]
  refine times_eq_of_powers ?_
  rw [h, hinverse, sub_eq_add_neg]

end Measure

namespace Substitution

variable {s : Substitution}

/-- The powers of the value of an atom. -/
def atomPowers (s : Substitution) (a : Atom Name) : Name → Int :=
  (s.atom a).toOption.elim 0 Measure.powers

theorem atomPowers_of_atom {a : Atom Name} {m : Measure} (h : s.atom a = .ok m) : s.atomPowers a = m.powers := by
  rw [atomPowers, toOption_eq_some_iff.2 h, Option.elim_some]

theorem respects_atomPowers (s : Substitution) : Product.Respects s.atomPowers := by
  intro a b hab
  cases a with
  | var name => rw [Atom.compare_var_eq_iff.1 hab]
  | unit w =>
      obtain ⟨w', rfl, hname⟩ := Atom.compare_unit_eq_iff.1 hab
      rw [atomPowers, atomPowers, atom, atom, hname]

end Substitution

namespace UnitScheme

variable {s : Substitution} {u v w : UnitScheme} {x y : Measure}

/-- What a unit becomes has the powers of the unit, with those of the values in the place of the variables. -/
theorem powers_of_toMeasure (h : toMeasure s u = .ok x) (hu : u.ReplacesInRange s.atom) :
    x.powers = u.eval s.atomPowers := by
  have hbind := (Product.replacesInRange_iff.1 hu).bind?_eq h
  refine Product.eval_of_bind? Product.respects_unitPower (fun a m hm => ?_) hbind
  exact (Substitution.atomPowers_of_atom (toOption_eq_some_iff.1 hm)).symm

/-- A unit without further atoms has a value if the others have one. -/
theorem exists_toMeasure (hx : toMeasure s u = .ok x) (hy : toMeasure s v = .ok y)
    (hatoms : ∀ a ∈ w.atoms, a ∈ u.atoms ∨ a ∈ v.atoms) : ∃ z, toMeasure s w = .ok z := by
  refine Product.exists_bindM_eq_ok_iff.2 fun a ha => ?_
  rcases hatoms a ha with ha | ha
  · exact Product.exists_bindM_eq_ok_iff.1 ⟨x, hx⟩ a ha
  · exact Product.exists_bindM_eq_ok_iff.1 ⟨y, hy⟩ a ha

/-- Replacing variables goes with products, quotients and powers, where no power is clamped. -/
theorem toMeasure_homomorphism (hx : toMeasure s u = .ok x) (hy : toMeasure s v = .ok y)
    (hu : u.ReplacesInRange s.atom) (hv : v.ReplacesInRange s.atom) (p : Exponent) :
    ((∀ a, Exponent.Fits ((u.power a).val + (v.power a).val)) → (u.times v).ReplacesInRange s.atom →
      toMeasure s (u.times v) = .ok (x.times y)) ∧
    ((∀ a, Exponent.Fits (-(v.power a).val)) → (∀ a, Exponent.Fits ((u.power a).val - (v.power a).val)) →
      (u.divide v).ReplacesInRange s.atom → (∀ n, Exponent.Fits (-(y.power n).val)) →
        toMeasure s (u.divide v) = .ok (x.divide y)) ∧
    ((∀ a, Exponent.Fits ((u.power a).val * p.val)) → (u.raise p).ReplacesInRange s.atom →
      toMeasure s (u.raise p) = .ok (x.raise p)) := by
  have hxpowers := powers_of_toMeasure hx hu
  have hypowers := powers_of_toMeasure hy hv
  have hvalue := s.respects_atomPowers
  -- The result has a value since it has no atoms of its own.  Its powers are those of the values, so they are known.
  refine ⟨fun hfits hrange => ?_, fun hinverse hfits hrange hyinverse => ?_, fun hfits hrange => ?_⟩
  · obtain ⟨z, hz⟩ := exists_toMeasure (w := u.times v) hx hy fun a ha => Product.mem_atoms_times ha
    have hzpowers := powers_of_toMeasure hz hrange
    rw [Product.eval_times_of_fits hvalue hfits, ← hxpowers, ← hypowers] at hzpowers
    rw [hz, Measure.times_eq_of_powers hzpowers]
  · have hatoms : ∀ a ∈ (u.divide v).atoms, a ∈ u.atoms ∨ a ∈ v.atoms := fun a ha =>
      (Product.mem_atoms_times ha).imp_right Product.mem_atoms_raise
    obtain ⟨z, hz⟩ := exists_toMeasure hx hy hatoms
    have hzpowers := powers_of_toMeasure hz hrange
    rw [Product.eval_divide_of_fits hvalue hinverse hfits, ← hxpowers, ← hypowers] at hzpowers
    rw [hz, Measure.divide_eq_of_powers hyinverse hzpowers]
  · obtain ⟨z, hz⟩ := exists_toMeasure (w := u.raise p) hx hy fun a ha => .inl (Product.mem_atoms_raise ha)
    have hzpowers := powers_of_toMeasure hz hrange
    rw [Product.eval_raise_of_fits hfits, ← hxpowers] at hzpowers
    rw [hz, Measure.raise_eq_of_powers hzpowers]

/-- The variable cancels in the product and not in the quotient, and its value shares its units with both factors. -/
theorem toMeasure_homomorphism_of_cancelled_variable :
    let s : Substitution := Bindings.empty.insert "v" (.unit (.ofFactors [("m", .clamp 2), ("s", .negOne)]))
    let u : UnitScheme := .ofFactors [(.var "v", 1), (.unit (.named "m"), .negOne)]
    let v : UnitScheme := .ofFactors [(.var "v", .negOne), (.unit (.named "s"), 1)]
    let x : Measure := .ofFactors [("m", 1), ("s", .negOne)]
    let y : Measure := .ofFactors [("m", .clamp (-2)), ("s", .clamp 2)]
    let p : Exponent := .clamp 1073741823
    toMeasure s u = .ok x ∧ toMeasure s v = .ok y ∧
      u.times v = .ofFactors [(.unit (.named "m"), .negOne), (.unit (.named "s"), 1)] ∧
      u.divide v = .ofFactors [(.var "v", .clamp 2), (.unit (.named "m"), .negOne), (.unit (.named "s"), .negOne)] ∧
      u.raise p = .ofFactors [(.var "v", p), (.unit (.named "m"), .clamp (-1073741823))] ∧
      toMeasure s (u.times v) = .ok (x.times y) ∧ toMeasure s (u.divide v) = .ok (x.divide y) ∧
      toMeasure s (u.raise p) = .ok (x.raise p) := by
  intro s u v x y p
  have hx : toMeasure s u = .ok x := rfl
  have hy : toMeasure s v = .ok y := rfl
  have hu : u.ReplacesInRange s.atom := Product.replacesInRange_iff.2 fun _ _ => rfl
  have hv : v.ReplacesInRange s.atom := Product.replacesInRange_iff.2 fun _ _ => rfl
  obtain ⟨htimes, hdivide, hraise⟩ := toMeasure_homomorphism hx hy hu hv p
  have hproduct : u.times? v = some (u.times v) := rfl
  have hquotient : u.divide? v = some (u.divide v) := rfl
  have hpower : u.raise? p = some (u.raise p) := rfl
  have hinverse : v.raise? .negOne = some (v.raise .negOne) := rfl
  have hyinverse : y.raise? .negOne = some (y.raise .negOne) := rfl
  refine ⟨hx, hy, rfl, rfl, rfl, htimes (Product.fits_of_times? hproduct) ?_,
    hdivide (Product.fits_neg_of_raise? hinverse) (Product.fits_of_divide? hquotient) ?_
      (Product.fits_neg_of_raise? hyinverse),
    hraise (Product.fits_of_raise? hpower) ?_⟩
  all_goals exact Product.replacesInRange_iff.2 fun _ _ => by decide +kernel

end UnitScheme

end Tabula
