import Tabula.Proofs.ExactPowers
import Tabula.Proofs.UnitValues

/-!
# The variable that an equation is solved for

`UnitTerm.pivot?` looks for a smallest power among those that divide all powers.  Two such powers divide each
other, so they are the same up to sign, and the first of their variables is chosen.

The equation is then solved for this variable unless the solution has a power out of range.  Dividing makes
powers smaller, so there is only one way to leave the range: the least power is divided by one, and its sign is
changed.
-/

namespace Tabula

/-- An exponent that is divided without a rest and changes its sign fits, unless it is the least one and was
divided by one. -/
theorem Exponent.fits_neg_ediv_iff {c p : Int} (hc : Fits c) (hp : p ≠ 0) (hdvd : p ∣ c) :
    Fits (-c / p) ↔ ¬ (p = 1 ∧ c = -2147483648) := by
  obtain ⟨k, rfl⟩ := hdvd
  have hquotient : -(p * k) / p = -k := by
    rw [← Int.mul_neg, Int.mul_ediv_cancel_left _ hp]
  rw [hquotient]
  unfold Fits at hc ⊢
  -- The quotient is no larger than what was divided.
  have hsize : k.natAbs ≤ (p * k).natAbs := by
    rw [Int.natAbs_mul]
    exact Nat.le_mul_of_pos_left _ (Int.natAbs_pos.2 hp)
  by_cases hk : k = -2147483648
  · subst hk
    omega
  · refine iff_of_true (by omega) ?_
    rintro ⟨rfl, hleast⟩
    omega

namespace UnitTerm

variable {u w : UnitTerm} {x y : VarId} {p : Exponent}

theorem mem_vars_iff_power : (x, p) ∈ UnitTerm.vars u ↔ u.power (.var x) = p ∧ p ≠ 0 := by
  rw [mem_vars_iff]
  constructor
  · intro h
    exact ⟨Product.power_of_mem h, u.nonzero _ h⟩
  · rintro ⟨rfl, hp⟩
    obtain ⟨a, ha, hmem⟩ := Product.mem_of_powerIn_ne_zero hp
    rw [Atom.compare_var_eq_iff.1 ha] at hmem
    exact hmem

theorem mem_vars_of_power (h : (u.power (.var x)).val ≠ 0) : (x, u.power (.var x)) ∈ UnitTerm.vars u :=
  mem_vars_iff_power.2 ⟨rfl, mt Exponent.val_eq_zero_iff.2 h⟩

theorem vars_pairwise (u : UnitTerm) : (UnitTerm.vars u).Pairwise fun v w => v.1 < w.1 := by
  unfold UnitTerm.vars
  refine List.Pairwise.filterMap _ ?_ u.ordered
  rintro ⟨a, p⟩ ⟨b, q⟩ hlt v hv w hw
  cases a with
  | unit _ => cases hv
  | var y =>
      cases b with
      | unit _ => cases hw
      | var z =>
          cases hv
          cases hw
          exact Nat.compare_eq_lt.1 hlt

/-- What stands before a variable in the list of variables are those with smaller numbers. -/
theorem mem_before_iff {before after : List (VarId × Exponent)} {v : VarId × Exponent}
    (hvars : UnitTerm.vars u = before ++ (x, p) :: after) (hv : v ∈ UnitTerm.vars u) : v ∈ before ↔ v.1 < x := by
  have hordered := vars_pairwise u
  rw [hvars] at hordered hv
  obtain ⟨-, hafter, hcross⟩ := List.pairwise_append.1 hordered
  constructor
  · intro hbefore
    exact hcross v hbefore _ List.mem_cons_self
  · intro hlt
    rcases List.mem_append.1 hv with hbefore | hv
    · exact hbefore
    · rcases List.mem_cons.1 hv with rfl | hv
      · exact absurd hlt (Nat.lt_irrefl _)
      · have hgt : x < v.1 := (List.pairwise_cons.1 hafter).1 v hv
        exact absurd hlt (Nat.lt_asymm hgt)

theorem dividesPowers_iff : dividesPowers u p = true ↔ ∀ a, p.val ∣ (u.power a).val := by
  unfold dividesPowers
  rw [List.all_eq_true]
  constructor
  · intro h a
    by_cases hzero : u.power a = 0
    · rw [hzero]
      exact Int.dvd_zero p.val
    · obtain ⟨b, -, hmem⟩ := Product.mem_of_powerIn_ne_zero hzero
      have hmod : ((u.power a).val % p.val == 0) = true := h _ hmem
      exact Int.dvd_of_emod_eq_zero (beq_iff_eq.1 hmod)
  · intro h f hf
    have hdvd := h f.1
    rw [Product.power_of_mem hf] at hdvd
    exact beq_iff_eq.2 (Int.emod_eq_zero_of_dvd hdvd)

/-- Of variables whose powers have the same size, the first one is taken. -/
theorem smallestPower?_eq_head? {vars : List (VarId × Exponent)}
    (h : ∀ v ∈ vars, ∀ w ∈ vars, v.2.val.natAbs ≤ w.2.val.natAbs) : smallestPower? vars = vars.head? := by
  cases vars with
  | nil => rfl
  | cons v vars =>
      unfold smallestPower?
      split
      · rfl
      · rename_i w hw
        have hmem : w ∈ v :: vars := List.mem_cons_of_mem _ (mem_of_smallestPower? hw)
        rw [if_pos (h v List.mem_cons_self w hmem), List.head?_cons]

theorem pivot?_eq_find? (u : UnitTerm) : pivot? u = (UnitTerm.vars u).find? fun v => dividesPowers u v.2 := by
  unfold pivot?
  rw [smallestPower?_eq_head?, List.head?_filter]
  -- A power that divides all powers divides every other one of this kind.
  intro v hv w hw
  obtain ⟨-, hv⟩ := List.mem_filter.1 hv
  obtain ⟨hw, -⟩ := List.mem_filter.1 hw
  obtain ⟨hpower, hne⟩ := mem_vars_iff_power.1 hw
  have hdvd := dividesPowers_iff.1 hv (.var w.1)
  rw [hpower] at hdvd
  exact Nat.le_of_dvd (Int.natAbs_pos.2 (mt Exponent.val_eq_zero_iff.1 hne)) (Int.natAbs_dvd_natAbs.2 hdvd)

/-- The power of the variable divides all powers, and the variables before it have no such power. -/
structure Pivot (u : UnitTerm) (x : VarId) : Prop where
  nonzero : (u.power (.var x)).val ≠ 0
  divides : ∀ a, (u.power (.var x)).val ∣ (u.power a).val
  first : ∀ y, y < x → (u.power (.var y)).val ≠ 0 → ∃ a, ¬ (u.power (.var y)).val ∣ (u.power a).val

theorem Pivot.unique (hx : u.Pivot x) (hy : u.Pivot y) : x = y := by
  rcases Nat.lt_trichotomy x y with hlt | heq | hlt
  · obtain ⟨a, ha⟩ := hy.first x hlt hx.nonzero
    exact absurd (hx.divides a) ha
  · exact heq
  · obtain ⟨a, ha⟩ := hx.first y hlt hy.nonzero
    exact absurd (hy.divides a) ha

theorem pivot?_eq_some_iff : pivot? u = some (x, p) ↔ u.Pivot x ∧ u.power (.var x) = p := by
  rw [pivot?_eq_find?, List.find?_eq_some_iff_append]
  constructor
  · rintro ⟨hdivides, before, after, hvars, hbefore⟩
    have hmem : (x, p) ∈ UnitTerm.vars u := by
      rw [hvars]
      exact List.mem_append_right _ List.mem_cons_self
    obtain ⟨rfl, hp⟩ := mem_vars_iff_power.1 hmem
    refine ⟨⟨mt Exponent.val_eq_zero_iff.1 hp, dividesPowers_iff.1 hdivides, fun y hy hne => ?_⟩, rfl⟩
    have hrefused := hbefore _ ((mem_before_iff hvars (mem_vars_of_power hne)).2 hy)
    by_contra hall
    rw [not_exists] at hall
    have hdivides : dividesPowers u (u.power (.var y)) = true :=
      dividesPowers_iff.2 fun a => not_not.1 (hall a)
    simp [hdivides] at hrefused
  · rintro ⟨hpivot, rfl⟩
    obtain ⟨before, after, hvars⟩ := List.append_of_mem (mem_vars_of_power hpivot.nonzero)
    refine ⟨dividesPowers_iff.2 hpivot.divides, before, after, hvars, ?_⟩
    rintro ⟨y, q⟩ hy
    have hymem : (y, q) ∈ UnitTerm.vars u := by
      rw [hvars]
      exact List.mem_append_left _ hy
    obtain ⟨rfl, hq⟩ := mem_vars_iff_power.1 hymem
    obtain ⟨a, ha⟩ := hpivot.first y ((mem_before_iff hvars hymem).1 hy) (mt Exponent.val_eq_zero_iff.1 hq)
    rw [Bool.not_eq_true', Bool.eq_false_iff]
    exact fun hdivides => ha (dividesPowers_iff.1 hdivides a)

/-- There is a variable to solve for as soon as the power of some variable divides all powers. -/
theorem exists_pivot_of_dvd (hx : (u.power (.var x)).val ≠ 0)
    (hdvd : ∀ a, (u.power (.var x)).val ∣ (u.power a).val) : ∃ y, u.Pivot y := by
  cases hpivot : pivot? u with
  | some v => exact ⟨v.1, (pivot?_eq_some_iff.1 hpivot).1⟩
  | none =>
      rw [pivot?_eq_find?, List.find?_eq_none] at hpivot
      exact absurd (dividesPowers_iff.2 hdvd) (hpivot _ (mem_vars_of_power hx))

theorem exists_solveFor?_iff :
    (∃ w, solveFor? u x p = some w) ↔ ∀ f ∈ u.factors, f.1 ≠ .var x → Exponent.Fits (-f.2.val / p.val) := by
  unfold solveFor?
  constructor
  · rintro ⟨w, h⟩ f hf hne
    obtain ⟨factors, hfactors, -⟩ := Option.bind_eq_some_iff.1 h
    obtain ⟨g, -, hg⟩ := exists_of_forall₂ (mapM_eq_some_iff.1 hfactors).flip f
      (List.mem_filter.2 ⟨hf, bne_iff_ne.2 hne⟩)
    obtain ⟨q, hq, -⟩ := Option.bind_eq_some_iff.1 hg
    rw [← Exponent.ofInt?_eq_some_iff.1 hq]
    exact q.fits_val
  · intro h
    have hfactors : ∃ factors, List.Forall₂
        (fun (f : Atom VarId × Exponent) g => (do return (f.1, ← Exponent.ofInt? (-f.2.val / p.val))) = some g)
        (u.factors.filter fun f => f.1 != .var x) factors := by
      refine exists_forall₂ fun f hf => ?_
      obtain ⟨hf, hne⟩ := List.mem_filter.1 hf
      have hfits := h f hf (bne_iff_ne.1 hne)
      exact ⟨(f.1, ⟨_, hfits.1, hfits.2⟩),
        Option.bind_eq_some_iff.2 ⟨_, Exponent.ofInt?_eq_some_iff.2 rfl, rfl⟩⟩
    obtain ⟨factors, hfactors⟩ := hfactors
    exact ⟨_, Option.bind_eq_some_iff.2 ⟨factors, mapM_eq_some_iff.2 hfactors, rfl⟩⟩

/-- An equation is solved if there is a variable to solve it for, unless the solution has a power out of range. -/
theorem exists_solve?_iff :
    (∃ x w, solve? u = some (x, w)) ↔
      ∃ x, u.Pivot x ∧ ((u.power (.var x)).val = 1 → ∀ a, (u.power a).val ≠ -2147483648) := by
  constructor
  · rintro ⟨x, w, h⟩
    obtain ⟨p, hfound, hvalue⟩ := solve?_eq_some_iff.1 h
    obtain ⟨hpivot, rfl⟩ := pivot?_eq_some_iff.1 hfound
    refine ⟨x, hpivot, fun hone a hleast => ?_⟩
    have hne : u.power a ≠ 0 := fun hzero => by simp [hzero] at hleast
    obtain ⟨b, hb, hmem⟩ := Product.mem_of_powerIn_ne_zero hne
    have hbx : b ≠ .var x := by
      rintro rfl
      have hsame : u.power a = u.power (.var x) := Product.powerIn_congr hb
      rw [hsame] at hleast
      omega
    have hfits := exists_solveFor?_iff.1 ⟨w, hvalue⟩ _ hmem hbx
    exact (Exponent.fits_neg_ediv_iff (u.power a).fits_val hpivot.nonzero (hpivot.divides a)).1 hfits ⟨hone, hleast⟩
  · rintro ⟨x, hpivot, hrange⟩
    have hvalue : ∃ w, solveFor? u x (u.power (.var x)) = some w := by
      refine exists_solveFor?_iff.2 fun f hf _ => ?_
      rw [← Product.power_of_mem hf, Exponent.fits_neg_ediv_iff (Exponent.fits_val _) hpivot.nonzero
        (hpivot.divides f.1)]
      rintro ⟨hone, hleast⟩
      exact hrange hone f.1 hleast
    obtain ⟨w, hw⟩ := hvalue
    exact ⟨x, w, solve?_eq_some_iff.2 ⟨_, pivot?_eq_some_iff.2 ⟨hpivot, rfl⟩, hw⟩⟩

theorem pivot_of_solve? (h : solve? u = some (x, w)) : u.Pivot x := by
  obtain ⟨p, hpivot, -⟩ := solve?_eq_some_iff.1 h
  exact (pivot?_eq_some_iff.1 hpivot).1

/-- The powers of the solution, multiplied by the power of the variable, are those of the equation. -/
theorem power_of_solve? (h : solve? u = some (x, w)) (a : Atom VarId) :
    (u.power a).val = (u.power (.var x)).val * (Product.unitPower (.var x) a - (w.power a).val) := by
  obtain ⟨p, hpivot, hvalue⟩ := solve?_eq_some_iff.1 h
  obtain ⟨-, rfl⟩ := pivot?_eq_some_iff.1 hpivot
  have hmultiple := congrFun (eval_of_solveFor? hpivot hvalue : u.eval Product.unitPower = _) a
  rwa [Product.eval_unitPower, Pi.smul_apply, Pi.sub_apply, Product.eval_unitPower, smul_eq_mul] at hmultiple

end UnitTerm

end Tabula
