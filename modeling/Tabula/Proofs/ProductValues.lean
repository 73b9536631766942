import Mathlib.Algebra.BigOperators.Group.List.Basic
import Mathlib.Algebra.Module.Basic
import Mathlib.Tactic.Abel
import Tabula.Proofs.Atoms
import Tabula.Proofs.Equality

/-!
# The value of a product

When every atom has a value in a commutative group, written additively, a product of powers of atoms has one
too.  All checked operations on products are told by their effect on values: the value of a product of two
products is a sum, that of a power is a multiple.  The clamping operations have no such description, but they
give what the checked operations give, as long as these do not refuse.

With the powers themselves as values, a product is determined by its value.
-/

namespace Tabula

open List (Forall₂)

namespace Product

section Sum

variable {α G : Type} [AddCommGroup G] {val : α → G} {fs : List (α × Exponent)} {n : Exponent}

/-- The sum of the multiples that factors stand for, given the values of the atoms. -/
def sumOf (val : α → G) (fs : List (α × Exponent)) : G :=
  (fs.map fun f => f.2.val • val f.1).sum

@[simp] theorem sumOf_nil : sumOf val [] = 0 := rfl

@[simp] theorem sumOf_cons {f : α × Exponent} : sumOf val (f :: fs) = f.2.val • val f.1 + sumOf val fs := by
  simp [sumOf]

theorem smul_sumOf_of_forall₂ {β : Type} {val' : β → G} {gs : List (β × Exponent)} {c : Int}
    (h : Forall₂ (fun f g => c • g.2.val • val' g.1 = f.2.val • val f.1) fs gs) :
    c • sumOf val' gs = sumOf val fs := by
  induction h with
  | nil => simp
  | cons hfg _ ih => rw [sumOf_cons, sumOf_cons, smul_add, hfg, ih]

theorem sumOf_filterMap_raiseFactor (h : ∀ f ∈ fs, Exponent.Fits (f.2.val * n.val)) :
    sumOf val (fs.filterMap (raiseFactor n)) = n.val • sumOf val fs := by
  induction fs with
  | nil => simp
  | cons f fs ih =>
      obtain ⟨hf, hfs⟩ := List.forall_mem_cons.1 h
      have hclamp := Exponent.val_clamp_of_fits hf
      rw [sumOf_cons, smul_add, ← ih hfs, smul_smul, Int.mul_comm n.val, ← hclamp]
      by_cases hzero : Exponent.clamp (f.2.val * n.val) = 0
      · rw [List.filterMap_cons_none (by simp [raiseFactor, hzero]), hzero]
        simp
      · rw [List.filterMap_cons_some (b := (f.1, Exponent.clamp (f.2.val * n.val))) (by simp [raiseFactor, hzero])]
        simp

end Sum

variable {α : Type} [Ord α]

section Order

variable {fs : List (α × Exponent)} {a : α} {p : Exponent}

/-- An atom that is none of the atoms has the power zero. -/
theorem powerIn_of_ne (h : ∀ f ∈ fs, compare a f.1 ≠ .eq) : powerIn a fs = 0 := by
  induction fs with
  | nil => rfl
  | cons f fs ih =>
      rw [powerIn, if_neg (h f List.mem_cons_self)]
      exact ih fun g hg => h g (List.mem_cons_of_mem _ hg)

variable [Std.TransOrd α]

theorem powerIn_of_lt {f : α × Exponent} (h : Ascending Prod.fst (f :: fs)) (hlt : compare a f.1 = .lt) :
    powerIn a (f :: fs) = 0 := by
  obtain ⟨hfirst, -⟩ := List.pairwise_cons.1 h
  refine powerIn_of_ne (List.forall_mem_cons.2 ⟨by simp [hlt], fun g hg => ?_⟩)
  simp [Std.TransCmp.lt_trans hlt (hfirst g hg)]

/-- The power of the first atom stands in the first factor only. -/
theorem powerIn_of_eq {f : α × Exponent} (h : Ascending Prod.fst (f :: fs)) (heq : compare a f.1 = .eq) :
    powerIn a (f :: fs) = f.2 ∧ powerIn a fs = 0 := by
  obtain ⟨hfirst, -⟩ := List.pairwise_cons.1 h
  refine ⟨by rw [powerIn, if_pos heq], powerIn_of_ne fun g hg => ?_⟩
  simp [Std.TransCmp.lt_of_eq_of_lt heq (hfirst g hg)]

theorem powerIn_of_gt (h : ∀ f ∈ fs, compare f.1 a = .lt) : powerIn a fs = 0 :=
  powerIn_of_ne fun f hf => by simp [Std.OrientedCmp.gt_of_lt (h f hf)]

theorem setIn_of_gt (h : ∀ f ∈ fs, compare f.1 a = .lt) (hp : p ≠ 0) : setIn a p fs = fs ++ [(a, p)] := by
  induction fs with
  | nil => rw [setIn, if_neg hp, List.nil_append]
  | cons f fs ih =>
      have hgt : compare a f.1 = .gt := Std.OrientedCmp.gt_of_lt (h f List.mem_cons_self)
      simp only [setIn, hgt, List.cons_append]
      rw [ih fun g hg => h g (List.mem_cons_of_mem _ hg)]

theorem factors_addPower_of_gt {u : Product α} (h : ∀ f ∈ u.factors, compare f.1 a = .lt) (hp : p ≠ 0) :
    (u.addPower a p).factors = u.factors ++ [(a, p)] := by
  have hsum : Exponent.clamp ((u.power a).val + p.val) = p := by
    rw [power, powerIn_of_gt h, Exponent.val_zero, Int.zero_add, Exponent.clamp_val]
  rw [addPower, hsum]
  exact setIn_of_gt h hp

/-- Factors in order are multiplied out to themselves. -/
theorem factors_ofFactors (h : Ascending Prod.fst fs) (hp : ∀ f ∈ fs, f.2 ≠ 0) : (ofFactors fs).factors = fs := by
  have hfold : ∀ (fs : List (α × Exponent)) (u : Product α), Ascending Prod.fst (u.factors ++ fs) →
      (∀ f ∈ fs, f.2 ≠ 0) → (fs.foldl (fun u f => u.addPower f.1 f.2) u).factors = u.factors ++ fs := by
    intro fs
    induction fs with
    | nil => simp
    | cons f fs ih =>
        intro u h hp
        obtain ⟨hf, hfs⟩ := List.forall_mem_cons.1 hp
        obtain ⟨-, -, hcross⟩ := List.pairwise_append.1 h
        have hfirst := factors_addPower_of_gt (fun g hg => hcross g hg f List.mem_cons_self) hf
        rw [List.foldl_cons, ih _ (by rw [hfirst]; simpa using h) hfs, hfirst]
        simp
  exact hfold fs one h hp

end Order

section Value

variable {G : Type} [AddCommGroup G] {val : α → G} {fs : List (α × Exponent)} {u v w : Product α} {a : α}
  {p n : Exponent}

/-- The value of a product, given the values of the atoms. -/
def eval (val : α → G) (u : Product α) : G :=
  sumOf val u.factors

@[simp] theorem eval_one : (one : Product α).eval val = 0 := rfl

@[simp] theorem eval_single : (single a).eval val = val a := by
  simp [eval, single]

theorem eval_of_isOne (h : u.isOne = true) : u.eval val = 0 := by
  rw [eval, List.isEmpty_iff.1 h, sumOf_nil]

theorem eval_congr {val' : α → G} (h : ∀ a ∈ u.atoms, val a = val' a) : u.eval val = u.eval val' := by
  have hfactors : ∀ f ∈ u.factors, f.2.val • val f.1 = f.2.val • val' f.1 := fun f hf => by
    rw [h f.1 (mem_atoms_of_mem hf)]
  rw [eval, eval, sumOf, sumOf, List.map_congr_left hfactors]

/-- Values are given to what atoms stand for: atoms that are not told apart have the same value. -/
def Respects (val : α → G) : Prop :=
  ∀ a b, compare a b = .eq → val a = val b

theorem eval_of_raise? (h : u.raise? n = some w) : w.eval val = n.val • u.eval val := by
  unfold raise? at h
  split at h
  · rename_i hfits
    cases h
    exact sumOf_filterMap_raiseFactor hfits
  · cases h

/-- Steps that add the same multiple of each factor add this multiple of all. -/
theorem eval_of_foldlM {step : Product α → α × Exponent → Option (Product α)} {c : Int}
    (hstep : ∀ u f w, step u f = some w → w.eval val = u.eval val + (c * f.2.val) • val f.1)
    (h : fs.foldlM step u = some w) : w.eval val = u.eval val + c • sumOf val fs := by
  induction fs generalizing u with
  | nil =>
      cases h
      simp
  | cons f fs ih =>
      rw [List.foldlM_cons] at h
      obtain ⟨u', hu', hrest⟩ := Option.bind_eq_some_iff.1 h
      rw [ih hrest, hstep u f u' hu', sumOf_cons, smul_add, smul_smul, add_assoc]

variable [Std.TransOrd α]

theorem sumOf_setIn (hval : Respects val) (h : Ascending Prod.fst fs) :
    sumOf val (setIn a p fs) = sumOf val fs + (p.val - (powerIn a fs).val) • val a := by
  induction fs with
  | nil =>
      rw [setIn]
      split
      · simp_all [powerIn]
      · simp [powerIn]
  | cons f fs ih =>
      obtain ⟨-, hrest⟩ := List.pairwise_cons.1 h
      rw [setIn]
      split
      · rename_i hlt
        rw [powerIn_of_lt h hlt]
        split
        · simp_all
        · simp [add_comm]
      · rename_i heq
        rw [(powerIn_of_eq h heq).1, hval a f.1 heq, sub_smul]
        split
        · simp_all
        · simp only [sumOf_cons]
          abel
      · rename_i hgt
        have hpower : powerIn a (f :: fs) = powerIn a fs := by rw [powerIn, if_neg (by simp [hgt])]
        rw [sumOf_cons, sumOf_cons, ih hrest, hpower, add_assoc]

theorem eval_of_addPower? (hval : Respects val) (h : u.addPower? a p = some w) :
    w.eval val = u.eval val + p.val • val a := by
  obtain ⟨q, hq, rfl⟩ := Option.map_eq_some_iff.1 h
  rw [eval, set, sumOf_setIn hval u.ordered, Exponent.ofInt?_eq_some_iff.1 hq, power, add_sub_cancel_left]
  rfl

theorem eval_of_subPower? (hval : Respects val) (h : u.subPower? a p = some w) :
    w.eval val = u.eval val + -p.val • val a := by
  obtain ⟨q, hq, rfl⟩ := Option.map_eq_some_iff.1 h
  rw [eval, set, sumOf_setIn hval u.ordered, Exponent.ofInt?_eq_some_iff.1 hq, power, sub_sub_cancel_left]
  rfl

theorem eval_of_times? (hval : Respects val) (h : u.times? v = some w) :
    w.eval val = u.eval val + v.eval val := by
  have hstep : ∀ (u : Product α) (f : α × Exponent) w, u.addPower? f.1 f.2 = some w →
      w.eval val = u.eval val + (1 * f.2.val) • val f.1 := fun u f w hw => by
    rw [one_mul]
    exact eval_of_addPower? hval hw
  rw [eval_of_foldlM hstep h, one_smul]
  rfl

theorem eval_of_divide? (hval : Respects val) (h : u.divide? v = some w) :
    w.eval val = u.eval val - v.eval val := by
  have hstep : ∀ (u : Product α) (f : α × Exponent) w, u.subPower? f.1 f.2 = some w →
      w.eval val = u.eval val + (-1 * f.2.val) • val f.1 := fun u f w hw => by
    rw [neg_one_mul]
    exact eval_of_subPower? hval hw
  rw [eval_of_foldlM hstep h, neg_one_smul, ← sub_eq_add_neg]
  rfl

end Value

section Powers

variable [Std.TransOrd α] {u v : Product α}

/-- The powers of the atoms in one atom. -/
def unitPower (a b : α) : Int :=
  if compare b a = .eq then 1 else 0

theorem respects_unitPower : Respects (unitPower : α → α → Int) := by
  intro a a' heq
  funext b
  rw [unitPower, unitPower, Std.TransCmp.congr_right heq]

theorem eval_unitPower (u : Product α) (b : α) : u.eval unitPower b = (u.power b).val := by
  have hsum : ∀ fs : List (α × Exponent), Ascending Prod.fst fs → sumOf unitPower fs b = (powerIn b fs).val := by
    intro fs
    induction fs with
    | nil => exact fun _ => rfl
    | cons f fs ih =>
        intro h
        obtain ⟨-, hrest⟩ := List.pairwise_cons.1 h
        rw [sumOf_cons, Pi.add_apply, ih hrest, Pi.smul_apply, unitPower, powerIn]
        split
        · rename_i heq
          simp [(powerIn_of_eq h heq).2]
        · simp
  exact hsum u.factors u.ordered

theorem forall₂_of_powerIn_eq {fs gs : List (α × Exponent)} (hfs : Ascending Prod.fst fs)
    (hgs : Ascending Prod.fst gs) (hfne : ∀ f ∈ fs, f.2 ≠ 0) (hgne : ∀ g ∈ gs, g.2 ≠ 0)
    (h : ∀ a, powerIn a fs = powerIn a gs) :
    Forall₂ (fun f g => compare f.1 g.1 = .eq ∧ f.2 = g.2) fs gs := by
  induction fs generalizing gs with
  | nil =>
      cases gs with
      | nil => exact .nil
      | cons g gs =>
          have hg := h g.1
          rw [powerIn, powerIn, if_pos Std.ReflCmp.compare_self] at hg
          exact absurd hg.symm (hgne g List.mem_cons_self)
  | cons f fs ih =>
      obtain ⟨hf, hfne⟩ := List.forall_mem_cons.1 hfne
      have hhead := (powerIn_of_eq hfs (Std.ReflCmp.compare_self (a := f.1))).1
      cases gs with
      | nil => exact absurd (hhead.symm.trans (h f.1)) hf
      | cons g gs =>
          obtain ⟨hg, hgne⟩ := List.forall_mem_cons.1 hgne
          cases hcompare : compare f.1 g.1 with
          | lt => exact absurd (hhead.symm.trans ((h f.1).trans (powerIn_of_lt hgs hcompare))) hf
          | gt =>
              have hgpower := (powerIn_of_eq hgs (Std.ReflCmp.compare_self (a := g.1))).1
              have hzero := powerIn_of_lt hfs (Std.OrientedCmp.lt_of_gt hcompare)
              exact absurd (hgpower.symm.trans ((h g.1).symm.trans hzero)) hg
          | eq =>
              have hpower : f.2 = g.2 := hhead.symm.trans ((h f.1).trans (powerIn_of_eq hgs hcompare).1)
              refine .cons ⟨hcompare, hpower⟩
                (ih (List.pairwise_cons.1 hfs).2 (List.pairwise_cons.1 hgs).2 hfne hgne fun a => ?_)
              have hiff : compare a f.1 = .eq ↔ compare a g.1 = .eq := by
                rw [Std.TransCmp.congr_right hcompare]
              by_cases heq : compare a f.1 = .eq
              · rw [(powerIn_of_eq hfs heq).2, (powerIn_of_eq hgs (hiff.1 heq)).2]
              · have ha := h a
                rwa [powerIn, powerIn, if_neg heq, if_neg (mt hiff.2 heq)] at ha

/-- The powers determine the factors. -/
theorem beq_of_power_eq (h : ∀ a, u.power a = v.power a) : u == v :=
  beq_iff.2 (forall₂_of_powerIn_eq u.ordered v.ordered u.nonzero v.nonzero h)

/-- A product divided by one that is equal to it leaves nothing. -/
theorem exists_divide?_of_beq (h : u == v) : ∃ q, u.divide? v = some q ∧ q.isOne = true := by
  have hfold : ∀ fs gs : List (α × Exponent), Forall₂ (fun f g => compare f.1 g.1 = .eq ∧ f.2 = g.2) fs gs →
      ∀ w : Product α, w.factors = fs →
        ∃ q, gs.foldlM (fun w g => w.subPower? g.1 g.2) w = some q ∧ q.isOne = true := by
    intro fs gs h
    induction h with
    | nil => exact fun w hw => ⟨w, rfl, List.isEmpty_iff.2 hw⟩
    | @cons f g fs gs hfg _ ih =>
        intro w hw
        have hcompare : compare g.1 f.1 = .eq := Std.OrientedCmp.eq_symm hfg.1
        have hpower : w.power g.1 = f.2 := by rw [power, hw, powerIn, if_pos hcompare]
        have hstep : w.subPower? g.1 g.2 = some (w.set g.1 0) := by
          rw [subPower?, hpower, hfg.2, Int.sub_self]
          rfl
        have hrest : (w.set g.1 0).factors = fs := by
          show setIn g.1 0 w.factors = fs
          rw [hw, setIn, hcompare]
          exact if_pos rfl
        obtain ⟨q, hq, hone⟩ := ih _ hrest
        exact ⟨q, by rw [List.foldlM_cons, hstep]; exact hq, hone⟩
  exact hfold _ _ (beq_iff.1 h) u rfl

theorem beq_of_eval_unitPower_eq (h : u.eval unitPower = v.eval unitPower) : u == v := by
  refine beq_of_power_eq fun a => Exponent.ext ?_
  rw [← eval_unitPower, ← eval_unitPower, h]

end Powers

section Checked

variable {u v w : Product α}

theorem raise_of_raise? {n : Exponent} (h : u.raise? n = some w) : u.raise n = w := by
  unfold raise? at h
  split at h
  · cases h
    rfl
  · cases h

variable [Std.TransOrd α]

theorem times_of_times? (h : u.times? v = some w) : u.times v = w := by
  refine foldl_eq_of_foldlM (fun u f w hw => ?_) h
  obtain ⟨q, hq, rfl⟩ := Option.map_eq_some_iff.1 hw
  rw [addPower, ← Exponent.ofInt?_eq_some_iff.1 hq, Exponent.clamp_val]

/-- The product of powers of products, if all powers on the way fit. -/
def ofPowers? (us : List (Product α × Exponent)) : Option (Product α) :=
  us.foldlM (fun w f => do w.times? (← f.1.raise? f.2)) one

theorem ofPowers_of_ofPowers? {us : List (Product α × Exponent)} (h : ofPowers? us = some w) :
    ofPowers us = w := by
  refine foldl_eq_of_foldlM (fun u f w hw => ?_) h
  obtain ⟨v, hv, hw⟩ := Option.bind_eq_some_iff.1 hw
  rw [raise_of_raise? hv, times_of_times? hw]

theorem eval_of_ofPowers? {G : Type} [AddCommGroup G] {val : α → G} (hval : Respects val)
    {us : List (Product α × Exponent)} (h : ofPowers? us = some w) :
    w.eval val = sumOf (eval val) us := by
  have hfold : ∀ (us : List (Product α × Exponent)) (u : Product α),
      us.foldlM (fun w f => do w.times? (← f.1.raise? f.2)) u = some w →
        w.eval val = u.eval val + sumOf (eval val) us := by
    intro us
    induction us with
    | nil =>
        intro u h
        cases h
        simp
    | cons f us ih =>
        intro u h
        rw [List.foldlM_cons] at h
        obtain ⟨u', hu', hrest⟩ := Option.bind_eq_some_iff.1 h
        obtain ⟨v, hv, hu'⟩ := Option.bind_eq_some_iff.1 hu'
        rw [ih u' hrest, eval_of_times? hval hu', eval_of_raise? hv, sumOf_cons, add_assoc]
  simpa using hfold us one h

end Checked

section Replacement

variable {β : Type} [Ord β] [Std.TransOrd β] {u : Product α} {w : Product β}

/-- Replace every atom by a product, if all atoms have one and all powers on the way fit. -/
def bind? (u : Product α) (f : α → Option (Product β)) : Option (Product β) := do
  let values ← u.factors.mapM fun g => do return (← f g.1, g.2)
  ofPowers? values

theorem bind?_eq_some_iff {f : α → Option (Product β)} :
    u.bind? f = some w ↔ ∃ values,
      Forall₂ (fun g x => f g.1 = some x.1 ∧ g.2 = x.2) u.factors values ∧ ofPowers? values = some w := by
  have hmember : ∀ (g : α × Exponent) (x : Product β × Exponent),
      (do return (← f g.1, g.2)) = some x ↔ f g.1 = some x.1 ∧ g.2 = x.2 := by
    rintro g ⟨x, p⟩
    cases f g.1 <;> simp
  have hvalues : ∀ values, (u.factors.mapM fun g => do return (← f g.1, g.2)) = some values ↔
      Forall₂ (fun g x => f g.1 = some x.1 ∧ g.2 = x.2) u.factors values := fun values => by
    simp only [mapM_eq_some_iff, hmember]
  refine Option.bind_eq_some_iff.trans ?_
  exact exists_congr fun values => and_congr_left fun _ => hvalues values

theorem bind_of_bind? {f : α → Product β} {f? : α → Option (Product β)}
    (hf : ∀ a x, f? a = some x → f a = x) (h : u.bind? f? = some w) : u.bind f = w := by
  obtain ⟨values, hvalues, hw⟩ := bind?_eq_some_iff.1 h
  have heq : u.factors.map (fun g => (f g.1, g.2)) = values := by
    clear h hw
    generalize u.factors = fs at hvalues
    induction hvalues with
    | nil => rfl
    | cons hgx _ ih => rw [List.map_cons, ih, hf _ _ hgx.1, hgx.2]
  rw [bind, heq, ofPowers_of_ofPowers? hw]

/-- A product in which atoms were replaced by what has their values keeps its value. -/
theorem eval_of_bind? {G : Type} [AddCommGroup G] {val : β → G} (hval : Respects val) {val' : α → G}
    {f : α → Option (Product β)} (hf : ∀ a x, f a = some x → x.eval val = val' a) (h : u.bind? f = some w) :
    w.eval val = u.eval val' := by
  obtain ⟨values, hvalues, hw⟩ := bind?_eq_some_iff.1 h
  rw [eval_of_ofPowers? hval hw, eval]
  clear h hw
  generalize u.factors = fs at hvalues ⊢
  induction hvalues with
  | nil => rfl
  | cons hgx _ ih => rw [sumOf_cons, sumOf_cons, ih, hf _ _ hgx.1, hgx.2]

theorem bind_congr {f g : α → Product β} (h : ∀ a ∈ u.atoms, f a = g a) : u.bind f = u.bind g := by
  have hfactors : ∀ x ∈ u.factors, (f x.1, x.2) = (g x.1, x.2) := fun x hx => by
    rw [h x.1 (mem_atoms_of_mem hx)]
  rw [bind, bind, List.map_congr_left hfactors]

end Replacement

section ReplacementBySelf

variable [Std.TransOrd α]

theorem times_raise_single {u : Product α} {a : α} {p : Exponent} (hp : p ≠ 0) :
    u.times ((single a).raise p) = u.addPower a p := by
  simp [times, raise, single, raiseFactor, hp]

/-- Nothing changes if every atom is replaced by itself. -/
theorem bind_single (u : Product α) : u.bind single = u := by
  have hfold : ∀ (fs : List (α × Exponent)) (w : Product α), (∀ f ∈ fs, f.2 ≠ 0) →
      (fs.map fun g => (single g.1, g.2)).foldl (fun w f => w.times (f.1.raise f.2)) w =
        fs.foldl (fun w f => w.addPower f.1 f.2) w := by
    intro fs
    induction fs with
    | nil => exact fun _ _ => rfl
    | cons f fs ih =>
        intro w hfs
        obtain ⟨hf, hfs⟩ := List.forall_mem_cons.1 hfs
        rw [List.map_cons, List.foldl_cons, List.foldl_cons, times_raise_single hf, ih _ hfs]
  refine eq_of_factors_eq ?_
  rw [bind, ofPowers, hfold u.factors one u.nonzero]
  exact factors_ofFactors u.ordered u.nonzero

end ReplacementBySelf

end Product

end Tabula
