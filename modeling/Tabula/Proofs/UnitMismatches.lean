import Tabula.Proofs.UnitPivots
import Tabula.Proofs.UnitSolutions

/-!
# Which equations between units are refused

An equation between units that has no solution is refused.  The converse fails: `Store.unifyUnits` solves an
equation for one variable in terms of the others, and it looks only for a variable whose power divides all
powers.  The equation `u^2*v^3 = m` has the solution `u = m^-1`, `v = m`, but neither `2` divides `3` nor `3`
divides `2`.

Besides, a power can be out of range, in the quotient of the two sides or in the solution.  These are all the
cases in which an equation is refused that has a solution.
-/

namespace Tabula

namespace UnitTerm

variable {e f q : UnitTerm} {σ : VarId → Atom VarId → Int} {p : Int}

/-- Some units for the variables make the two units equal. -/
def Solvable (e f : UnitTerm) : Prop :=
  ∃ σ : VarId → Atom VarId → Int, e.powersUnder σ = f.powersUnder σ

/-- Why the equation between `e` and `f` is refused even if it has a solution. -/
inductive Overlooked (e f : UnitTerm) : Prop where
  /-- The quotient has a power out of range. -/
  | quotient (a : Atom VarId) (hout : ¬ Exponent.Fits (Product.difference e f a))
  /-- There is no variable whose power divides the powers of all variables. -/
  | divisor (hne : ¬ e == f)
      (hnone : ∀ x, Product.difference e f (.var x) ≠ 0 →
        ∃ y, ¬ Product.difference e f (.var x) ∣ Product.difference e f (.var y))
  /-- The equation is solved for a variable with the power one, and the least power would change its sign. -/
  | solution (x : VarId) (a : Atom VarId) (hone : Product.difference e f (.var x) = 1)
      (hfirst : ∀ y, y < x → (Product.difference e f (.var y)).natAbs ≠ 1)
      (hleast : Product.difference e f a = -2147483648)

/-- Replacing variables changes the powers by multiples of what divides the powers of the variables. -/
theorem dvd_sumOf_withVars_sub {fs : List (Atom VarId × Exponent)}
    (h : ∀ g ∈ fs, ∀ y, g.1 = .var y → p ∣ g.2.val) (a : Atom VarId) :
    p ∣ Product.sumOf (Atom.withVars Product.unitPower σ) fs a - Product.sumOf Product.unitPower fs a := by
  induction fs with
  | nil => simp
  | cons g fs ih =>
      obtain ⟨hg, hfs⟩ := List.forall_mem_cons.1 h
      have hrest := ih hfs
      simp only [Product.sumOf_cons, Pi.add_apply, Pi.smul_apply, smul_eq_mul]
      obtain ⟨b, n⟩ := g
      cases b with
      | unit w =>
          rw [Atom.withVars, add_sub_add_left_eq_sub]
          exact hrest
      | var y =>
          rw [add_sub_add_comm, ← mul_sub]
          exact Int.dvd_add (Dvd.dvd.mul_right (hg y rfl) _) hrest

theorem dvd_powersUnder_sub (h : ∀ y, p ∣ (q.power (.var y)).val) (a : Atom VarId) :
    p ∣ q.powersUnder σ a - (q.power a).val := by
  rw [← Product.eval_unitPower]
  refine dvd_sumOf_withVars_sub (fun g hg y hy => ?_) a
  rw [← Product.power_of_mem hg, hy]
  exact h y

/-- In an equation that has a solution, what divides the powers of all variables divides all powers. -/
theorem dvd_power_of_powersUnder_eq_zero (hσ : q.powersUnder σ = 0) (h : ∀ y, p ∣ (q.power (.var y)).val)
    (a : Atom VarId) : p ∣ (q.power a).val := by
  have hdvd := dvd_powersUnder_sub (σ := σ) h a
  rw [hσ, Pi.zero_apply, zero_sub] at hdvd
  exact Int.dvd_neg.1 hdvd

theorem solvable_of_isOne (hq : e.divide? f = some q) (hone : q.isOne = true) : Solvable e f := by
  refine ⟨fun _ _ => 0, sub_eq_zero.1 ?_⟩
  rw [← powersUnder_of_divide? hq]
  exact Product.eval_of_isOne hone

theorem not_overlooked_of_isOne (hq : e.divide? f = some q) (hone : q.isOne = true) : ¬ Overlooked e f := by
  have hzero := Product.beq_iff_difference.1 ((Product.isOne_of_divide? hq).1 hone)
  rintro (⟨a, hout⟩ | ⟨hne, -⟩ | ⟨x, a, hx, -, -⟩)
  · rw [hzero] at hout
    exact hout (by decide)
  · exact hne (Product.beq_iff_difference.2 hzero)
  · rw [hzero] at hx
    omega

/-- An equation that is solved was not overlooked. -/
theorem not_overlooked_of_solve? (hq : e.divide? f = some q) (hsolve : ∃ x w, solve? q = some (x, w)) :
    ¬ Overlooked e f := by
  have hpower : ∀ a, (q.power a).val = Product.difference e f a := Product.power_of_divide? hq
  obtain ⟨x, hpivot, hrange⟩ := exists_solve?_iff.1 hsolve
  rintro (⟨a, hout⟩ | ⟨-, hnone⟩ | ⟨y, a, hy, hfirst, hleast⟩)
  · rw [← hpower] at hout
    exact hout (q.power a).fits_val
  · obtain ⟨y, hy⟩ := hnone x (hpower _ ▸ hpivot.nonzero)
    rw [← hpower, ← hpower] at hy
    exact hy (hpivot.divides _)
  · -- A power that divides that of `y` is one up to sign, so `y` is the variable that was solved for.
    have hpivot' : q.Pivot y := by
      refine ⟨by rw [hpower, hy]; decide, fun b => ?_, fun z hz _ => ⟨.var y, fun hdvd => hfirst z hz ?_⟩⟩
      · rw [hpower, hy]
        exact Int.one_dvd _
      · rw [hpower, hpower, hy] at hdvd
        exact Nat.dvd_one.1 (Int.natAbs_dvd_natAbs.2 hdvd)
    rw [hpivot.unique hpivot', hpower, hy] at hrange
    exact hrange rfl a (by rw [hpower, hleast])

/-- An equation that has a solution and is not overlooked is solved. -/
theorem exists_solve?_of_solvable (hq : e.divide? f = some q) (hone : ¬ q.isOne = true) (hσ : Solvable e f)
    (hoverlooked : ¬ Overlooked e f) : ∃ x w, solve? q = some (x, w) := by
  have hpower : ∀ a, (q.power a).val = Product.difference e f a := Product.power_of_divide? hq
  have hne : ¬ e == f := mt (Product.isOne_of_divide? hq).2 hone
  obtain ⟨σ, hσ⟩ := hσ
  have hzero : q.powersUnder σ = 0 := by rw [powersUnder_of_divide? hq, hσ, sub_self]
  -- A power that divides those of all variables exists, and by the solution it divides all powers.
  obtain ⟨x, hx, hdvd⟩ : ∃ x, (q.power (.var x)).val ≠ 0 ∧ ∀ y, (q.power (.var x)).val ∣ (q.power (.var y)).val := by
    by_contra hnone
    refine hoverlooked (.divisor hne fun x hx => ?_)
    by_contra hall
    refine hnone ⟨x, by rwa [hpower], fun y => ?_⟩
    rw [hpower, hpower]
    by_contra hy
    exact hall ⟨y, hy⟩
  obtain ⟨z, hpivot⟩ := exists_pivot_of_dvd hx (dvd_power_of_powersUnder_eq_zero hzero hdvd)
  refine exists_solve?_iff.2 ⟨z, hpivot, fun hunit a hleast => hoverlooked ?_⟩
  refine .solution z a (by rw [← hpower, hunit]) (fun y hy hsize => ?_) (by rw [← hpower, hleast])
  rw [← hpower] at hsize
  obtain ⟨b, hb⟩ := hpivot.first y hy (by omega)
  exact hb (Int.natAbs_dvd.1 (by rw [hsize]; exact Int.one_dvd _))

end UnitTerm

namespace Store

variable {s : Store} {e f : UnitTerm}

theorem unifyUnits_eq_error_iff :
    s.unifyUnits e f = .error (.unitMismatch (s.resolve e) (s.resolve f)) ↔ ¬ ∃ s', s.unifyUnits e f = .ok s' := by
  unfold unifyUnits
  dsimp only
  split
  · simp
  · split
    · simp
    · split
      · simp
      · simp

/-- Two units are made equal exactly if some units for their variables make them equal and the equation is not
overlooked. -/
theorem exists_unifyUnits_iff :
    (∃ s', s.unifyUnits e f = .ok s') ↔
      UnitTerm.Solvable (s.resolve e) (s.resolve f) ∧ ¬ UnitTerm.Overlooked (s.resolve e) (s.resolve f) := by
  constructor
  · rintro ⟨s', h⟩
    obtain ⟨q, hq, ⟨hone, -⟩ | ⟨-, x, w, hsolve, -⟩⟩ := unifyUnits_eq_ok_iff.1 h
    · exact ⟨UnitTerm.solvable_of_isOne hq hone, UnitTerm.not_overlooked_of_isOne hq hone⟩
    · have hsolution := UnitTerm.mostGeneralSolution_of_solve? hq hsolve
      exact ⟨⟨_, hsolution.solves⟩, UnitTerm.not_overlooked_of_solve? hq ⟨x, w, hsolve⟩⟩
  · rintro ⟨hsolvable, hoverlooked⟩
    cases hq : (s.resolve e).divide? (s.resolve f) with
    | none =>
        obtain ⟨a, hout⟩ := Product.divide?_eq_none_iff.1 hq
        exact absurd (.quotient a hout) hoverlooked
    | some q =>
        by_cases hone : q.isOne = true
        · exact ⟨s, unifyUnits_eq_ok_iff.2 ⟨q, hq, .inl ⟨hone, rfl⟩⟩⟩
        · obtain ⟨x, w, hsolve⟩ := UnitTerm.exists_solve?_of_solvable hq hone hsolvable hoverlooked
          refine ⟨s.assignUnit x w, unifyUnits_eq_ok_iff.2 ⟨q, hq, .inr ⟨?_, x, w, hsolve, rfl⟩⟩⟩
          exact Bool.eq_false_iff.2 hone

/-- Two units are refused exactly if no units for their variables make them equal, or the equation is overlooked. -/
theorem unifyUnits_mismatch_iff :
    s.unifyUnits e f = .error (.unitMismatch (s.resolve e) (s.resolve f)) ↔
      ¬ UnitTerm.Solvable (s.resolve e) (s.resolve f) ∨ UnitTerm.Overlooked (s.resolve e) (s.resolve f) := by
  rw [unifyUnits_eq_error_iff, exists_unifyUnits_iff, not_and_or, not_not]

/-- The equation `?0^2*?1^3 = m` is refused, though it is solved by `m^-1` for `?0` and `m` for `?1`: with these values
in the store, the left side is resolved to `m`. -/
theorem unifyUnits_mismatch_of_solvable :
    let m : Atom VarId := .unit ⟨"m", "metre"⟩
    let s : Store := ⟨#[], #[none, none]⟩
    let e : UnitTerm := .ofFactors [(.var 0, .clamp 2), (.var 1, .clamp 3)]
    let f : UnitTerm := .ofFactors [(m, 1)]
    let σ (id : VarId) (a : Atom VarId) : Int := if id = 0 then -Product.unitPower m a else Product.unitPower m a
    s.Reachable ∧ UnitTerm.Below s.units.size e ∧ UnitTerm.Below s.units.size f ∧
      s.unifyUnits e f = .error (.unitMismatch (s.resolve e) (s.resolve f)) ∧
      UnitTerm.powersUnder σ (s.resolve e) = UnitTerm.powersUnder σ (s.resolve f) ∧
      ((s.assignUnit 0 (.ofFactors [(m, .clamp (-1))])).assignUnit 1 f).resolve e = f := by
  intro m s e f σ
  have hreachable : s.Reachable := (reachable_empty.perform .freshUnit trivial).perform .freshUnit trivial
  have he : UnitTerm.Below s.units.size e := UnitTerm.below_ofFactors (by simp [s])
  have hf : UnitTerm.Below s.units.size f := UnitTerm.below_ofFactors (by simp [m])
  have hsolution : UnitTerm.powersUnder σ (s.resolve e) = UnitTerm.powersUnder σ (s.resolve f) := by
    have hleft : (s.resolve e).factors = [(.var 0, .clamp 2), (.var 1, .clamp 3)] := rfl
    have hright : (s.resolve f).factors = [(m, 1)] := rfl
    funext a
    rw [UnitTerm.powersUnder, UnitTerm.powersUnder, Product.eval, Product.eval, hleft, hright]
    simp only [Product.sumOf_cons, Product.sumOf_nil, Atom.withVars, Exponent.clamp, Exponent.val_one, add_zero,
      Pi.add_apply, Pi.smul_apply, smul_eq_mul, σ, m]
    norm_num
    omega
  refine ⟨hreachable, he, hf, ?_, hsolution, ?_⟩
  · simp only [s, e, f, m]
    rfl
  · simp only [s, e, f, m]
    rfl

end Store

end Tabula
