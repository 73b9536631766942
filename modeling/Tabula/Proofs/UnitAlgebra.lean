import Tabula.Proofs.ExactPowers

/-!
# The algebra of units

Products are multiplied, divided and raised to powers with clamped powers, so the laws of an abelian group hold as
long as nothing is clamped on one side that is not clamped on the other.  Products commute in any case, and the product
with no factors is neutral.  The other laws ask that certain sums and multiples of powers fit, atom by atom.  A product
divided by itself leaves nothing, unless the least power occurs in it, which has no opposite.

The checked operations never clamp.  They are refused exactly if an exact power does not fit, and otherwise have the
exact powers.

Everything is said for products of any atoms.  Units without variables, units with named variables and units with
numbered variables are three cases of it.
-/

namespace Tabula

/-- A power and its clamped opposite cancel, unless there is no opposite. -/
theorem Exponent.clamp_add_clamp_neg_eq_zero_iff (p : Exponent) :
    clamp (p.val + (clamp (-p.val)).val) = 0 ↔ p.val ≠ -2147483648 := by
  have hlower := p.lower
  have hupper := p.upper
  rw [← val_eq_zero_iff]
  simp only [clamp]
  omega

namespace Product

variable {α : Type} [Ord α] [Std.TransOrd α] {u v w : Product α} {p q r : Exponent}

section Laws

theorem times_comm (u v : Product α) : u.times v == v.times u := by
  refine beq_of_power_eq fun a => ?_
  rw [power_times, power_times, Int.add_comm]

theorem times_assoc (huv : ∀ a, Exponent.Fits ((u.power a).val + (v.power a).val))
    (hvw : ∀ a, Exponent.Fits ((v.power a).val + (w.power a).val)) :
    (u.times v).times w == u.times (v.times w) := by
  -- The sum of all three may be out of range.  It is clamped on both sides, and nothing else is.
  refine beq_of_power_eq fun a => ?_
  calc ((u.times v).times w).power a
      = .clamp ((u.power a).val + (v.power a).val + (w.power a).val) := by
        rw [power_times, power_times, Exponent.val_clamp_of_fits (huv a)]
    _ = .clamp ((u.power a).val + ((v.power a).val + (w.power a).val)) := by rw [Int.add_assoc]
    _ = (u.times (v.times w)).power a := by
        rw [power_times, power_times, Exponent.val_clamp_of_fits (hvw a)]

theorem raise_raise (hr : r.val = p.val * q.val) (hu : ∀ a, Exponent.Fits ((u.power a).val * p.val)) :
    (u.raise p).raise q == u.raise r := by
  refine beq_of_power_eq fun a => ?_
  calc ((u.raise p).raise q).power a
      = .clamp ((u.power a).val * p.val * q.val) := by
        rw [power_raise, power_raise, Exponent.val_clamp_of_fits (hu a)]
    _ = .clamp ((u.power a).val * r.val) := by rw [hr, Int.mul_assoc]
    _ = (u.raise r).power a := (power_raise u r a).symm

theorem raise_times (huv : ∀ a, Exponent.Fits ((u.power a).val + (v.power a).val))
    (hu : ∀ a, Exponent.Fits ((u.power a).val * p.val)) (hv : ∀ a, Exponent.Fits ((v.power a).val * p.val)) :
    (u.times v).raise p == (u.raise p).times (v.raise p) := by
  refine beq_of_power_eq fun a => ?_
  calc ((u.times v).raise p).power a
      = .clamp (((u.power a).val + (v.power a).val) * p.val) := by
        rw [power_raise, power_times, Exponent.val_clamp_of_fits (huv a)]
    _ = .clamp ((u.power a).val * p.val + (v.power a).val * p.val) := by rw [Int.add_mul]
    _ = ((u.raise p).times (v.raise p)).power a := by
        rw [power_times, power_raise, power_raise, Exponent.val_clamp_of_fits (hu a),
          Exponent.val_clamp_of_fits (hv a)]

theorem isOne_divide_self_iff (u : Product α) :
    (u.divide u).isOne = true ↔ ∀ a, (u.power a).val ≠ -2147483648 := by
  rw [isOne_iff]
  refine forall_congr' fun a => ?_
  rw [divide, power_times, power_raise, Exponent.val_negOne, Int.mul_neg_one,
    Exponent.clamp_add_clamp_neg_eq_zero_iff]

/-- The laws of the algebra of units, each as far as the range of powers allows. -/
theorem unit_laws (u v w : Product α) (p q : Exponent) :
    u.times v == v.times u ∧
    u.times one = u ∧
    ((∀ a, Exponent.Fits ((u.power a).val + (v.power a).val)) →
      (∀ a, Exponent.Fits ((v.power a).val + (w.power a).val)) →
        (u.times v).times w == u.times (v.times w)) ∧
    (∀ r : Exponent, r.val = p.val * q.val → (∀ a, Exponent.Fits ((u.power a).val * p.val)) →
      (u.raise p).raise q == u.raise r) ∧
    ((∀ a, Exponent.Fits ((u.power a).val + (v.power a).val)) →
      (∀ a, Exponent.Fits ((u.power a).val * p.val)) → (∀ a, Exponent.Fits ((v.power a).val * p.val)) →
        (u.times v).raise p == (u.raise p).times (v.raise p)) ∧
    ((u.divide u).isOne = true ↔ ∀ a, (u.power a).val ≠ -2147483648) :=
  ⟨times_comm u v, rfl, times_assoc, fun _ => raise_raise, raise_times, isOne_divide_self_iff u⟩

/-- The laws at the ends of the range: a product of three and a power of a power that are clamped, a power of a product
with variables, a quotient that cancels, and one that does not because of the least power. -/
theorem unit_laws_of_extreme_powers :
    let u : Measure := .ofFactors [("m", .clamp 2147483647)]
    let v : UnitScheme := .ofFactors [(.var "v", .clamp (-2147483647)), (.unit (.named "m"), 1)]
    let x : UnitTerm := .ofFactors [(.var 0, .clamp 2147483647)]
    let y : UnitTerm := .ofFactors [(.var 0, .clamp (-2147483648)), (.unit (.named "m"), 1)]
    (u.times (single "s")).times u == u.times ((single "s").times u) ∧
    (v.raise .negOne).raise (.clamp 2) == v.raise (.clamp (-2)) ∧
    (x.times (single (.var 1))).raise .negOne == (x.raise .negOne).times ((single (.var 1)).raise .negOne) ∧
    (x.divide x).isOne = true ∧ (y.divide y).isOne = false := by
  intro u v x y
  have hleft : u.times? (single "s") = some (u.times (single "s")) := rfl
  have hright : (single "s").times? u = some ((single "s").times u) := rfl
  have hv : v.raise? .negOne = some (v.raise .negOne) := rfl
  have hx : x.raise? .negOne = some (x.raise .negOne) := rfl
  have hz : (single (.var 1) : UnitTerm).raise? .negOne = some ((single (.var 1)).raise .negOne) := rfl
  have hxz : x.times? (single (.var 1)) = some (x.times (single (.var 1))) := rfl
  obtain ⟨-, -, hassoc, -⟩ := unit_laws u (single "s") u 1 1
  obtain ⟨-, -, -, hpowers, -⟩ := unit_laws v v v .negOne (.clamp 2)
  obtain ⟨-, -, -, -, hproduct, hcancels⟩ := unit_laws x (single (.var 1)) x .negOne 1
  obtain ⟨-, -, -, -, -, hleast⟩ := unit_laws y y y 1 1
  refine ⟨hassoc (fits_of_times? hleft) (fits_of_times? hright), hpowers _ rfl (fits_of_raise? hv),
    hproduct (fits_of_times? hxz) (fits_of_raise? hx) (fits_of_raise? hz), hcancels.2 fun a => ?_,
    Bool.eq_false_iff.2 fun hone => hleast.1 hone (.var 0) rfl⟩
  have hopposite := fits_neg_of_raise? hx a
  unfold Exponent.Fits at hopposite
  omega

end Laws

section Checked

variable {a : α} {fs : List (α × Exponent)}

/-- The product has exactly these powers: its factors are the atoms whose power is not zero. -/
structure HasPowers (w : Product α) (e : α → Int) : Prop where
  power : ∀ a, (w.power a).val = e a
  factor : ∀ a, (∃ f ∈ w.factors, compare a f.1 = .eq) ↔ e a ≠ 0

/-- No factor has the power zero, so the powers say which factors there are. -/
theorem hasPowers_of_power {e : α → Int} (h : ∀ a, (w.power a).val = e a) : w.HasPowers e := by
  refine ⟨h, fun a => ?_⟩
  rw [← h a, ne_eq, Exponent.val_eq_zero_iff]
  constructor
  · rintro ⟨f, hf, heq⟩
    have hsame : w.power a = w.power f.1 := powerIn_congr heq
    rw [hsame, power_of_mem hf]
    exact w.nonzero f hf
  · intro hne
    obtain ⟨b, hb, hmem⟩ := mem_of_powerIn_ne_zero hne
    exact ⟨_, hmem, hb⟩

/-- Multiply by one factor to the power `n`, if the powers fit. -/
def timesRaised? (n : Exponent) (w : Product α) (f : α × Exponent) : Option (Product α) := do
  w.addPower? f.1 (← Exponent.ofInt? (f.2.val * n.val))

theorem timesRaised?_of_not_fits {n : Exponent} {f : α × Exponent} (h : ¬ Exponent.Fits (f.2.val * n.val)) :
    w.timesRaised? n f = none := by
  rw [timesRaised?, Exponent.ofInt?_eq_none_iff.2 h]
  rfl

omit [Ord α] [Std.TransOrd α] in
theorem fst_of_raiseFactor {n : Exponent} {f g : α × Exponent} (h : raiseFactor n f = some g) : g.1 = f.1 := by
  simp only [raiseFactor] at h
  split at h
  · cases h
  · cases h
    rfl

theorem setIn_zero_of_gt (h : ∀ f ∈ fs, compare f.1 a = .lt) : setIn a 0 fs = fs := by
  induction fs with
  | nil => rfl
  | cons f fs ih =>
      have hgt : compare a f.1 = .gt := Std.OrientedCmp.gt_of_lt (h f List.mem_cons_self)
      simp only [setIn, hgt]
      rw [ih fun g hg => h g (List.mem_cons_of_mem _ hg)]

/-- A factor behind all others is put there, unless its power becomes zero. -/
theorem exists_timesRaised?_of_gt {n : Exponent} {f : α × Exponent} (hfits : Exponent.Fits (f.2.val * n.val))
    (h : ∀ g ∈ w.factors, compare g.1 f.1 = .lt) :
    ∃ w', w.timesRaised? n f = some w' ∧ w'.factors = w.factors ++ (raiseFactor n f).toList := by
  have hproduct : Exponent.ofInt? (f.2.val * n.val) = some (.clamp (f.2.val * n.val)) := by
    rw [Exponent.ofInt?_eq_some_iff, Exponent.val_clamp_of_fits hfits]
  have hsum (p : Exponent) : Exponent.ofInt? ((w.power f.1).val + p.val) = some p := by
    rw [power, powerIn_of_gt h, Exponent.val_zero, Int.zero_add, Exponent.ofInt?_eq_some_iff]
  refine ⟨w.set f.1 (.clamp (f.2.val * n.val)), ?_, ?_⟩
  · simp only [timesRaised?, hproduct, Option.bind_eq_bind, Option.bind_some, addPower?, hsum, Option.map_some]
  · show setIn f.1 (.clamp (f.2.val * n.val)) w.factors = w.factors ++ (raiseFactor n f).toList
    by_cases hzero : Exponent.clamp (f.2.val * n.val) = 0
    · simp [raiseFactor, hzero, setIn_zero_of_gt h]
    · simp [raiseFactor, hzero, setIn_of_gt h hzero]

/-- The checked power can be worked out factor by factor, giving up at the first power that does not fit. -/
theorem raise?_eq_foldlM (u : Product α) (n : Exponent) :
    u.raise? n = u.factors.foldlM (timesRaised? n) one := by
  -- The factors come in order, so each of them is put behind those that are already there.
  have hfold : ∀ (fs : List (α × Exponent)) (w : Product α), Ascending Prod.fst fs →
      (∀ g ∈ w.factors, ∀ f ∈ fs, compare g.1 f.1 = .lt) →
      (fs.foldlM (timesRaised? n) w).map factors =
        if ∀ f ∈ fs, Exponent.Fits (f.2.val * n.val) then some (w.factors ++ fs.filterMap (raiseFactor n))
        else none := by
    intro fs
    induction fs with
    | nil => simp
    | cons f fs ih =>
        intro w h hlt
        obtain ⟨hfirst, hrest⟩ := List.pairwise_cons.1 h
        rw [List.foldlM_cons]
        by_cases hfits : Exponent.Fits (f.2.val * n.val)
        · obtain ⟨w', hw', hfactors⟩ :=
            exists_timesRaised?_of_gt hfits fun g hg => hlt g hg f List.mem_cons_self
          have hbehind : ∀ g ∈ w'.factors, ∀ f' ∈ fs, compare g.1 f'.1 = .lt := by
            intro g hg f' hf'
            rw [hfactors, List.mem_append, Option.mem_toList] at hg
            rcases hg with hg | hg
            · exact hlt g hg f' (List.mem_cons_of_mem _ hf')
            · rw [fst_of_raiseFactor hg]
              exact hfirst f' hf'
          simp only [hw', Option.bind_eq_bind, Option.bind_some, ih w' hrest hbehind, hfactors,
            List.forall_mem_cons, hfits, true_and, List.append_assoc, List.filterMap_cons]
          cases raiseFactor n f <;> rfl
        · rw [timesRaised?_of_not_fits hfits, if_neg fun hall => hfits (hall f List.mem_cons_self)]
          rfl
  have hloop := hfold u.factors one u.ordered fun _ hg => absurd hg List.not_mem_nil
  refine Option.map_injective (fun _ _ => eq_of_factors_eq) ?_
  rw [hloop, raise?]
  split <;> rfl

/-- The checked operations on written units, and the checked quotient of units that inference works on.  Each is refused
exactly if an exact power is out of range.  Otherwise the result has the exact powers, with no factor where the power is
zero, and it is what the clamping operation gives. -/
theorem checked_operations_exact (u v : UnitScheme) (p : Exponent) (x y : UnitTerm) :
    (u.times? v = none ↔ ∃ a, ¬ Exponent.Fits ((u.power a).val + (v.power a).val)) ∧
    (∀ w, u.times? v = some w → w.HasPowers (fun a => (u.power a).val + (v.power a).val) ∧ w = u.times v) ∧
    (u.raise? p = none ↔ ∃ a, ¬ Exponent.Fits ((u.power a).val * p.val)) ∧
    (∀ w, u.raise? p = some w → w.HasPowers (fun a => (u.power a).val * p.val) ∧ w = u.raise p) ∧
    u.raise? p = u.factors.foldlM (timesRaised? p) one ∧
    (x.divide? y = none ↔ ∃ a, ¬ Exponent.Fits ((x.power a).val - (y.power a).val)) ∧
    ∀ w, x.divide? y = some w → w.HasPowers fun a => (x.power a).val - (y.power a).val := by
  refine ⟨times?_eq_none_iff, fun w hw => ?_, raise?_eq_none_iff, fun w hw => ?_, raise?_eq_foldlM u p,
    divide?_eq_none_iff, fun w hw => ?_⟩
  · exact ⟨hasPowers_of_power (power_of_times? hw), (times_of_times? hw).symm⟩
  · exact ⟨hasPowers_of_power (power_of_raise? hw), (raise_of_raise? hw).symm⟩
  · exact hasPowers_of_power (power_of_divide? hw)

/-- At the ends of the range a product and a power are refused, and a quotient by the least power is not. -/
theorem checked_operations_exact_of_extreme_powers :
    let m : Atom Name := .unit ⟨"m", "metre"⟩
    let u : UnitScheme := .ofFactors [(.var "v", .clamp (-2147483648)), (m, .clamp 2147483647)]
    let x : UnitTerm := .ofFactors [(.var 0, 1), (.unit (.named "m"), .clamp (-1))]
    let y : UnitTerm := .ofFactors [(.var 0, 1), (.unit (.named "m"), .clamp (-2147483648))]
    u.times? (single m) = none ∧ u.raise? .negOne = none ∧
      ∃ w, x.divide? y = some w ∧ w.HasPowers (fun a => (x.power a).val - (y.power a).val) ∧
        ¬ ∃ f ∈ w.factors, compare (.var 0) f.1 = .eq := by
  intro m u x y
  obtain ⟨hproduct, -, hpower, -, -, -, hquotient⟩ := checked_operations_exact u (single m) .negOne x y
  have hw : x.divide? y = some (.ofFactors [(.unit (.named "m"), .clamp 2147483647)]) := rfl
  have hpowers := hquotient _ hw
  refine ⟨hproduct.2 ⟨m, ?_⟩, hpower.2 ⟨.var "v", ?_⟩, _, hw, hpowers, fun hfactor => ?_⟩
  · decide
  · decide
  · exact (hpowers.factor (.var 0)).1 hfactor rfl

end Checked

end Product

end Tabula
