import Tabula.Proofs.ProductValues

/-!
# Operations told by their powers

The powers of the atoms say all about a product.  The checked product of two products has the exact sums of their
powers, the checked quotient has the exact differences, and a checked power has the exact multiples.  Each of them is
refused exactly if one of these powers is out of range.  The clamping operations have the same powers, clamped.

Sums, differences and multiples are integers, so they can be spoken of whether there is a result or not.
-/

namespace Tabula

namespace Product

variable {α : Type} [Ord α] [Std.TransOrd α] {u v w : Product α} {a b : α} {p : Exponent}
  {fs : List (α × Exponent)}

section Factors

theorem powerIn_of_mem (h : Ascending Prod.fst fs) (hmem : (a, p) ∈ fs) : powerIn a fs = p := by
  induction fs with
  | nil => cases hmem
  | cons f fs ih =>
      obtain ⟨hfirst, hrest⟩ := List.pairwise_cons.1 h
      rcases List.mem_cons.1 hmem with rfl | hmem
      · exact (powerIn_of_eq h Std.ReflCmp.compare_self).1
      · have hgt : compare a f.1 = .gt := Std.OrientedCmp.gt_of_lt (hfirst _ hmem)
        rw [powerIn, if_neg (by simp [hgt])]
        exact ih hrest hmem

omit [Std.TransOrd α] in
/-- A power that is not zero stands in a factor, though maybe of an atom with other notes. -/
theorem mem_of_powerIn_ne_zero (h : powerIn a fs ≠ 0) : ∃ b, compare a b = .eq ∧ (b, powerIn a fs) ∈ fs := by
  induction fs with
  | nil => exact absurd rfl h
  | cons f fs ih =>
      by_cases heq : compare a f.1 = .eq
      · rw [powerIn, if_pos heq]
        exact ⟨f.1, heq, List.mem_cons_self⟩
      · rw [powerIn, if_neg heq] at h ⊢
        obtain ⟨b, hb, hmem⟩ := ih h
        exact ⟨b, hb, List.mem_cons_of_mem _ hmem⟩

theorem powerIn_congr (h : compare a b = .eq) : powerIn a fs = powerIn b fs := by
  induction fs with
  | nil => rfl
  | cons f fs ih => rw [powerIn, powerIn, Std.TransCmp.congr_left h, ih]

end Factors

theorem power_of_mem (h : (a, p) ∈ u.factors) : u.power a = p :=
  powerIn_of_mem u.ordered h

theorem isOne_iff : u.isOne = true ↔ ∀ a, u.power a = 0 := by
  constructor
  · intro h a
    rw [power, List.isEmpty_iff.1 h, powerIn]
  · intro h
    refine List.isEmpty_iff.2 (List.eq_nil_iff_forall_not_mem.2 fun f hf => u.nonzero f hf ?_)
    rw [← power_of_mem hf, h]

/-- Writing the power of one atom leaves all others as they are. -/
theorem power_set (u : Product α) (a : α) (p : Exponent) (b : α) :
    (u.set a p).power b = if compare b a = .eq then p else u.power b := by
  have hvalue : ((u.set a p).power b).val =
      (u.power b).val + (p.val - (u.power a).val) * (if compare b a = .eq then 1 else 0) := by
    rw [← eval_unitPower, ← eval_unitPower u b]
    exact congrFun (sumOf_setIn respects_unitPower u.ordered) b
  apply Exponent.ext
  split
  · rename_i heq
    have hsame : u.power b = u.power a := powerIn_congr heq
    rw [hvalue, if_pos heq, hsame]
    omega
  · rename_i hne
    rw [hvalue, if_neg hne]
    omega

/-- The exact difference between the powers of an atom in two products. -/
def difference (u v : Product α) (a : α) : Int :=
  (u.power a).val - (v.power a).val

omit [Std.TransOrd α] in
theorem difference_swap (u v : Product α) (a : α) : v.difference u a = -u.difference v a := by
  unfold difference
  omega

theorem power_of_divide? (h : u.divide? v = some w) (a : α) : (w.power a).val = u.difference v a := by
  have hvalue := congrFun (eval_of_divide? respects_unitPower h) a
  rwa [Pi.sub_apply, eval_unitPower, eval_unitPower, eval_unitPower] at hvalue

/-- Equal products are those that differ in no power. -/
theorem beq_iff_difference : u == v ↔ ∀ a, u.difference v a = 0 := by
  constructor
  · intro h a
    obtain ⟨q, hq, hone⟩ := exists_divide?_of_beq h
    rw [← power_of_divide? hq, isOne_iff.1 hone, Exponent.val_zero]
  · intro h
    refine beq_of_power_eq fun a => Exponent.ext ?_
    have hzero := h a
    unfold difference at hzero
    omega

theorem isOne_of_divide? (h : u.divide? v = some w) : w.isOne = true ↔ u == v := by
  rw [isOne_iff, beq_iff_difference]
  refine forall_congr' fun a => ?_
  rw [← power_of_divide? h, Exponent.val_eq_zero_iff]

/-- A run that changes the power of one atom after the other, as long as the powers fit, is refused exactly if one of
the changed powers does not fit. -/
theorem foldlM_eq_none_iff {step : Product α → α × Exponent → Option (Product α)} (change : Exponent → Int)
    (hstep : ∀ u f, step u f = (Exponent.ofInt? ((u.power f.1).val + change f.2)).map (u.set f.1))
    (h : Ascending Prod.fst fs) :
    fs.foldlM step u = none ↔ ∃ f ∈ fs, ¬ Exponent.Fits ((u.power f.1).val + change f.2) := by
  induction fs generalizing u with
  | nil => simp
  | cons f fs ih =>
      obtain ⟨hfirst, hrest⟩ := List.pairwise_cons.1 h
      -- What is changed later belongs to other atoms, whose powers this step leaves alone.
      have hlater : ∀ q, ∀ g ∈ fs, (u.set f.1 q).power g.1 = u.power g.1 := by
        intro q g hg
        have hgt : compare g.1 f.1 = .gt := Std.OrientedCmp.gt_of_lt (hfirst g hg)
        rw [power_set, if_neg (by simp [hgt])]
      rw [List.foldlM_cons, List.exists_mem_cons_iff, hstep]
      cases hsum : Exponent.ofInt? ((u.power f.1).val + change f.2) with
      | none => exact iff_of_true rfl (.inl (Exponent.ofInt?_eq_none_iff.1 hsum))
      | some q =>
          have hfits : Exponent.Fits ((u.power f.1).val + change f.2) := by
            rw [← Exponent.ofInt?_eq_some_iff.1 hsum]
            exact q.fits_val
          refine (ih (u := u.set f.1 q) hrest).trans ?_
          constructor
          · rintro ⟨g, hg, hout⟩
            rw [hlater q g hg] at hout
            exact .inr ⟨g, hg, hout⟩
          · rintro (hout | ⟨g, hg, hout⟩)
            · exact absurd hfits hout
            · rw [← hlater q g hg] at hout
              exact ⟨g, hg, hout⟩

/-- What is true of some factor is true of the power of some atom, unless it is true of the power zero. -/
theorem exists_factor_iff {P : α → Exponent → Prop} (hP : ∀ a b p, compare a b = .eq → P a p → P b p)
    (hzero : ∀ a, ¬ P a 0) : (∃ f ∈ u.factors, P f.1 f.2) ↔ ∃ a, P a (u.power a) := by
  constructor
  · rintro ⟨f, hf, h⟩
    rw [← power_of_mem hf] at h
    exact ⟨f.1, h⟩
  · rintro ⟨a, h⟩
    have hne : u.power a ≠ 0 := fun heq => hzero a (heq ▸ h)
    obtain ⟨b, hb, hmem⟩ := mem_of_powerIn_ne_zero hne
    exact ⟨_, hmem, hP a b _ hb h⟩

/-- The same for a run over the factors of a product, where the power zero changes nothing. -/
theorem foldlM_factors_eq_none_iff {step : Product α → α × Exponent → Option (Product α)} (change : Exponent → Int)
    (hstep : ∀ u f, step u f = (Exponent.ofInt? ((u.power f.1).val + change f.2)).map (u.set f.1))
    (hzero : change 0 = 0) :
    v.factors.foldlM step u = none ↔ ∃ a, ¬ Exponent.Fits ((u.power a).val + change (v.power a)) := by
  refine (foldlM_eq_none_iff change hstep v.ordered).trans ?_
  refine exists_factor_iff (P := fun a p => ¬ Exponent.Fits ((u.power a).val + change p)) ?_ ?_
  · intro a b p hab
    have hsame : u.power a = u.power b := powerIn_congr hab
    rw [hsame]
    exact id
  · intro a
    rw [hzero, Int.add_zero, not_not]
    exact (u.power a).fits_val

/-- The quotient is refused exactly if some difference of powers is out of range. -/
theorem divide?_eq_none_iff : u.divide? v = none ↔ ∃ a, ¬ Exponent.Fits (u.difference v a) :=
  foldlM_factors_eq_none_iff (fun p => -p.val) (fun _ _ => rfl) rfl

/-- The product is refused exactly if some sum of powers is out of range. -/
theorem times?_eq_none_iff :
    u.times? v = none ↔ ∃ a, ¬ Exponent.Fits ((u.power a).val + (v.power a).val) :=
  foldlM_factors_eq_none_iff Exponent.val (fun _ _ => rfl) rfl

/-- A power is refused exactly if some multiple of a power is out of range. -/
theorem raise?_eq_none_iff : u.raise? p = none ↔ ∃ a, ¬ Exponent.Fits ((u.power a).val * p.val) := by
  have hrefused : u.raise? p = none ↔ ∃ f ∈ u.factors, ¬ Exponent.Fits (f.2.val * p.val) := by
    simp only [raise?, ite_eq_right_iff, reduceCtorEq, imp_false, not_forall, exists_prop]
  refine hrefused.trans (exists_factor_iff (P := fun _ q => ¬ Exponent.Fits (q.val * p.val)) ?_ ?_)
  · exact fun _ _ _ _ h => h
  · intro _
    rw [Exponent.val_zero, Int.zero_mul, not_not]
    exact (0 : Exponent).fits_val

theorem power_of_times? (h : u.times? v = some w) (a : α) :
    (w.power a).val = (u.power a).val + (v.power a).val := by
  have hvalue := congrFun (eval_of_times? respects_unitPower h) a
  rwa [Pi.add_apply, eval_unitPower, eval_unitPower, eval_unitPower] at hvalue

theorem power_of_raise? (h : u.raise? p = some w) (a : α) : (w.power a).val = (u.power a).val * p.val := by
  have hvalue : w.eval unitPower a = (p.val • u.eval unitPower) a := congrFun (eval_of_raise? h) a
  rwa [Pi.smul_apply, eval_unitPower, eval_unitPower, smul_eq_mul, Int.mul_comm] at hvalue

theorem fits_of_times? (h : u.times? v = some w) (a : α) : Exponent.Fits ((u.power a).val + (v.power a).val) :=
  power_of_times? h a ▸ (w.power a).fits_val

theorem fits_of_raise? (h : u.raise? p = some w) (a : α) : Exponent.Fits ((u.power a).val * p.val) :=
  power_of_raise? h a ▸ (w.power a).fits_val

theorem fits_of_divide? (h : u.divide? v = some w) (a : α) : Exponent.Fits (u.difference v a) :=
  power_of_divide? h a ▸ (w.power a).fits_val

/-- In a product that has an inverse, every power has an opposite. -/
theorem fits_neg_of_raise? (h : u.raise? .negOne = some w) (a : α) : Exponent.Fits (-(u.power a).val) := by
  rw [← Int.mul_neg_one]
  exact fits_of_raise? h a

theorem times?_of_fits (h : ∀ a, Exponent.Fits ((u.power a).val + (v.power a).val)) :
    u.times? v = some (u.times v) := by
  cases hw : u.times? v with
  | none =>
      obtain ⟨a, hout⟩ := times?_eq_none_iff.1 hw
      exact absurd (h a) hout
  | some w => rw [times_of_times? hw]

theorem raise?_of_fits (h : ∀ a, Exponent.Fits ((u.power a).val * p.val)) : u.raise? p = some (u.raise p) := by
  cases hw : u.raise? p with
  | none =>
      obtain ⟨a, hout⟩ := raise?_eq_none_iff.1 hw
      exact absurd (h a) hout
  | some w => rw [raise_of_raise? hw]

section Clamped

/-- Multiplying one factor after the other adds to each power once, so it is clamped once. -/
theorem power_foldl_addPower (h : Ascending Prod.fst fs) (u : Product α) (a : α) :
    (fs.foldl (fun w f => w.addPower f.1 f.2) u).power a =
      .clamp ((u.power a).val + (powerIn a fs).val) := by
  induction fs generalizing u with
  | nil => simp [powerIn]
  | cons f fs ih =>
      obtain ⟨-, hrest⟩ := List.pairwise_cons.1 h
      rw [List.foldl_cons, ih hrest, addPower, power_set]
      by_cases heq : compare a f.1 = .eq
      · obtain ⟨hfirst, hlater⟩ := powerIn_of_eq h heq
        have hsame : u.power a = u.power f.1 := powerIn_congr heq
        rw [if_pos heq, hfirst, hlater, hsame, Exponent.val_zero, Int.add_zero, Exponent.clamp_val]
      · rw [if_neg heq, powerIn, if_neg heq]

theorem power_times (u v : Product α) (a : α) :
    (u.times v).power a = .clamp ((u.power a).val + (v.power a).val) :=
  power_foldl_addPower v.ordered u a

theorem power_raise (u : Product α) (n : Exponent) (a : α) :
    (u.raise n).power a = .clamp ((u.power a).val * n.val) := by
  have hclampzero : Exponent.clamp ((0 : Exponent).val * n.val) = 0 := by
    rw [Exponent.val_zero, Int.zero_mul]
    exact Exponent.clamp_val 0
  have hpower : ∀ fs : List (α × Exponent), Ascending Prod.fst fs →
      powerIn a (fs.filterMap (raiseFactor n)) = .clamp ((powerIn a fs).val * n.val) := by
    intro fs
    induction fs with
    | nil => exact fun _ => hclampzero.symm
    | cons f fs ih =>
        intro h
        obtain ⟨-, hrest⟩ := List.pairwise_cons.1 h
        by_cases hzero : Exponent.clamp (f.2.val * n.val) = 0
        · rw [List.filterMap_cons_none (by simp [raiseFactor, hzero]), ih hrest]
          by_cases heq : compare a f.1 = .eq
          · obtain ⟨hfirst, hlater⟩ := powerIn_of_eq h heq
            rw [hfirst, hlater, hzero, hclampzero]
          · rw [powerIn, if_neg heq]
        · rw [List.filterMap_cons_some (b := (f.1, .clamp (f.2.val * n.val))) (by simp [raiseFactor, hzero]),
            powerIn, powerIn, ih hrest]
          split <;> rfl
  exact hpower u.factors u.ordered

end Clamped

end Product

end Tabula
