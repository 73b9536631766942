import Tabula.Proofs.UnitMismatches

/-!
# The order of the two sides of an equation between units

`Store.unifyUnits` solves `e / f = 1`, and with the sides exchanged it solves `f / e = 1`.  All powers of the
quotient change their sign, which makes no difference to the variable that is chosen and to its value.

The range of powers is not symmetric, however.  If a power of the quotient is the least one, there is no quotient
with the sides exchanged, and the equation is refused in this order only.
-/

namespace Tabula

/-- The quotient in the other order has the opposite powers, and it exists unless one of these is out of range. -/
theorem Product.exists_divide?_swap {u v q : UnitTerm} (hq : u.divide? v = some q)
    (hrange : ∀ a, Product.difference u v a ≠ -2147483648) :
    ∃ q', v.divide? u = some q' ∧ ∀ a, (q'.power a).val = -(q.power a).val := by
  cases hq' : v.divide? u with
  | none =>
      obtain ⟨a, hout⟩ := Product.divide?_eq_none_iff.1 hq'
      have hfits := (q.power a).fits_val
      have hne := hrange a
      rw [Product.power_of_divide? hq] at hfits
      rw [Product.difference_swap] at hout
      unfold Exponent.Fits at hout hfits
      omega
  | some q' =>
      refine ⟨q', rfl, fun a => ?_⟩
      rw [Product.power_of_divide? hq', Product.power_of_divide? hq, Product.difference_swap]

theorem Product.isOne_of_neg {q q' : UnitTerm} (hpower : ∀ a, (q'.power a).val = -(q.power a).val) :
    q'.isOne = q.isOne := by
  rw [Bool.eq_iff_iff, Product.isOne_iff, Product.isOne_iff]
  refine forall_congr' fun a => ?_
  rw [← Exponent.val_eq_zero_iff, hpower, Int.neg_eq_zero, Exponent.val_eq_zero_iff]

namespace UnitTerm

variable {q q' w : UnitTerm} {x : VarId}

/-- The variable to solve for stays the same if all powers change their sign. -/
theorem Pivot.of_neg (hpower : ∀ a, (q'.power a).val = -(q.power a).val) (h : q.Pivot x) : q'.Pivot x := by
  have hdvd : ∀ a b, (q'.power a).val ∣ (q'.power b).val ↔ (q.power a).val ∣ (q.power b).val := by
    intro a b
    rw [hpower, hpower, Int.neg_dvd, Int.dvd_neg]
  refine ⟨?_, fun a => (hdvd _ _).2 (h.divides a), fun y hy hne => ?_⟩
  · rw [hpower]
    exact Int.neg_ne_zero.2 h.nonzero
  · rw [hpower] at hne
    obtain ⟨a, ha⟩ := h.first y hy (Int.neg_ne_zero.1 hne)
    exact ⟨a, mt (hdvd _ _).1 ha⟩

/-- An equation whose powers have changed their sign has the same solution. -/
theorem exists_solve?_of_neg (hpower : ∀ a, (q'.power a).val = -(q.power a).val) (h : solve? q = some (x, w)) :
    ∃ w', solve? q' = some (x, w') ∧ w == w' := by
  have hpivot := pivot_of_solve? h
  have hpivot' := hpivot.of_neg hpower
  have hsolved : ∃ x' w', solve? q' = some (x', w') := by
    refine exists_solve?_iff.2 ⟨x, hpivot', fun _ a hleast => ?_⟩
    have hupper := (q.power a).upper
    rw [hpower] at hleast
    omega
  obtain ⟨x', w', h'⟩ := hsolved
  obtain rfl : x = x' := hpivot'.unique (pivot_of_solve? h')
  refine ⟨w', h', Product.beq_of_power_eq fun a => Exponent.ext ?_⟩
  -- Both values are determined by what is left when they are multiplied by the power of the variable.
  have hleft := power_of_solve? h a
  have hright := power_of_solve? h' a
  rw [hpower, hpower, hleft, Int.neg_mul, Int.neg_inj] at hright
  have hsame := Int.eq_of_mul_eq_mul_left hpivot.nonzero hright
  omega

end UnitTerm

namespace Store

variable {s s₁ : Store} {e f w w' : UnitTerm} {x : VarId}

/-- The stores have the same values; only the descriptions of declared units may differ. -/
structure SameValues (s s' : Store) : Prop where
  types : s.types = s'.types
  size : s.units.size = s'.units.size
  units : ∀ id, Option.Rel (fun u v => u == v) (s.unitValue? id) (s'.unitValue? id)

theorem SameValues.refl (s : Store) : s.SameValues s := by
  refine ⟨rfl, rfl, fun id => ?_⟩
  cases s.unitValue? id with
  | none => exact .none
  | some u => exact .some (Product.beq_refl u)

theorem sameValues_assignUnit (h : w == w') : (s.assignUnit x w).SameValues (s.assignUnit x w') := by
  refine ⟨rfl, by simp [assignUnit], fun id => ?_⟩
  by_cases hx : x < s.units.size
  · rw [unitValue?_assignUnit hx, unitValue?_assignUnit hx]
    split
    · exact .some h
    · exact (SameValues.refl s).units id
  · have hsame : ∀ u, s.assignUnit x u = s := by
      intro u
      rw [assignUnit, Array.setIfInBounds_eq_of_size_le (Nat.le_of_not_lt hx)]
    rw [hsame, hsame]
    exact (SameValues.refl s).units id

/-- If two units are made equal, they are made equal in the other order too, and the resulting stores have the same
values, unless some power in the quotient is the least one: then the other order is refused. -/
theorem unifyUnits_swap (h : s.unifyUnits e f = .ok s₁) :
    ((∀ a, Product.difference (s.resolve e) (s.resolve f) a ≠ -2147483648) →
      ∃ s₂, s.unifyUnits f e = .ok s₂ ∧ s₁.SameValues s₂) ∧
    ∀ a, Product.difference (s.resolve e) (s.resolve f) a = -2147483648 →
      s.unifyUnits f e = .error (.unitMismatch (s.resolve f) (s.resolve e)) := by
  constructor
  · intro hrange
    obtain ⟨q, hq, hcases⟩ := unifyUnits_eq_ok_iff.1 h
    obtain ⟨q', hq', hneg⟩ := Product.exists_divide?_swap hq hrange
    have hisOne := Product.isOne_of_neg hneg
    rcases hcases with ⟨hone, rfl⟩ | ⟨hone, x, w, hsolve, rfl⟩
    · refine ⟨s₁, unifyUnits_eq_ok_iff.2 ⟨q', hq', .inl ⟨?_, rfl⟩⟩, SameValues.refl s₁⟩
      rw [hisOne, hone]
    · obtain ⟨w', hsolve', hsame⟩ := UnitTerm.exists_solve?_of_neg hneg hsolve
      refine ⟨s.assignUnit x w', unifyUnits_eq_ok_iff.2 ⟨q', hq', .inr ⟨?_, x, w', hsolve', rfl⟩⟩,
        sameValues_assignUnit hsame⟩
      rw [hisOne, hone]
  · intro a hleast
    rw [unifyUnits_eq_error_iff]
    rintro ⟨s₂, h₂⟩
    obtain ⟨q', hq', -⟩ := unifyUnits_eq_ok_iff.1 h₂
    have hupper := (q'.power a).upper
    rw [Product.power_of_divide? hq', Product.difference_swap, hleast] at hupper
    omega

/-- The least power stands on the left here, but not in the quotient: `?0^2*m^-2147483648 = m^-2` is solved by
`m^1073741823` in either order. -/
theorem unifyUnits_swap_of_extreme_powers :
    let m : Atom VarId := .unit ⟨"m", "metre"⟩
    let s : Store := ⟨#[], #[none]⟩
    let e : UnitTerm := .ofFactors [(.var 0, .clamp 2), (m, .clamp (-2147483648))]
    let f : UnitTerm := .ofFactors [(m, .clamp (-2))]
    let s₁ : Store := ⟨#[], #[some (.ofFactors [(m, .clamp 1073741823)])]⟩
    s.unifyUnits e f = .ok s₁ ∧ (∀ a, Product.difference (s.resolve e) (s.resolve f) a ≠ -2147483648) ∧
      ∃ s₂, s.unifyUnits f e = .ok s₂ ∧ s₁.SameValues s₂ := by
  intro m s e f s₁
  have hok : s.unifyUnits e f = .ok s₁ := by
    simp only [s, e, f, s₁, m]
    rfl
  have hquotient : ∃ q, (s.resolve e).divide? (s.resolve f) = some q ∧
      q.factors = [(.var 0, .clamp 2), (m, .clamp (-2147483646))] := by
    simp only [s, e, f, m]
    exact ⟨_, rfl, rfl⟩
  have hrange : ∀ a, Product.difference (s.resolve e) (s.resolve f) a ≠ -2147483648 := by
    intro a hleast
    obtain ⟨q, hq, hfactors⟩ := hquotient
    rw [← Product.power_of_divide? hq] at hleast
    have hne : q.power a ≠ 0 := fun hzero => by simp [hzero] at hleast
    obtain ⟨b, -, (hmem : (b, q.power a) ∈ q.factors)⟩ := Product.mem_of_powerIn_ne_zero hne
    rw [hfactors, List.mem_pair, Prod.mk.injEq, Prod.mk.injEq] at hmem
    have hpower : q.power a = .clamp 2 ∨ q.power a = .clamp (-2147483646) := hmem.imp And.right And.right
    rcases hpower with hpower | hpower
    · rw [hpower] at hleast
      exact absurd hleast (by decide)
    · rw [hpower] at hleast
      exact absurd hleast (by decide)
  exact ⟨hok, hrange, (unifyUnits_swap hok).1 hrange⟩

/-- The equation `?0^2*m^-2147483648 = 1` is solved, and with the sides exchanged it is refused. -/
theorem unifyUnits_swap_refused :
    let m : Atom VarId := .unit ⟨"m", "metre"⟩
    let s : Store := ⟨#[], #[none]⟩
    let e : UnitTerm := .ofFactors [(.var 0, .clamp 2), (m, .clamp (-2147483648))]
    s.Reachable ∧ UnitTerm.Below s.units.size e ∧
      s.unifyUnits e .one = .ok ⟨#[], #[some (.ofFactors [(m, .clamp 1073741824)])]⟩ ∧
      s.unifyUnits .one e = .error (.unitMismatch .one e) := by
  intro m s e
  have he : UnitTerm.Below s.units.size e := UnitTerm.below_ofFactors (by simp [s, m])
  refine ⟨reachable_empty.perform .freshUnit trivial, he, ?_⟩
  simp only [s, e, m]
  exact ⟨rfl, rfl⟩

end Store

end Tabula
