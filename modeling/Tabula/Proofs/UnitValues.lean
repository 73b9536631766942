import Tabula.Proofs.AscendingKeys
import Tabula.Proofs.ProductValues
import Tabula.Proofs.StoreChanges

/-!
# What equations between units say about values

When every atom of a unit has a value in some commutative group, so does every unit.  A store is evaluated by
values if each variable has the value of the unit that it is bound to.  Resolving a unit in such a store keeps
its value, and an equation that the store was made to satisfy holds between the values.

The converse is what makes this useful: in a well formed store, units that have the same value under all
such evaluations are the same when they are resolved, so that nothing is left to be solved.  One evaluation is
enough to see it, the one in which the variables without a value are independent of each other and of the
declared units.

Resolving clamps powers that are out of range, so what is said about it is said where it does not: the checked
form `Store.resolve?` gives a result.
-/

namespace Tabula

open List (Forall₂)

/-- The values in which only the variables are different. -/
def Atom.withVars {G : Type} (val : Atom VarId → G) (vars : VarId → G) : Atom VarId → G
  | .var id => vars id
  | .unit w => val (.unit w)

namespace UnitTerm

variable {G : Type} [AddCommGroup G] {val : Atom VarId → G} {u : UnitTerm} {id : VarId} {p : Exponent}

theorem sumOf_filter_ne {fs : List (Atom VarId × Exponent)}
    (h : Ascending Prod.fst fs) {a : Atom VarId} (ha : (a, p) ∈ fs) :
    Product.sumOf val fs = p.val • val a + Product.sumOf val (fs.filter fun f => f.1 != a) := by
  induction fs with
  | nil => cases ha
  | cons f fs ih =>
      obtain ⟨hfirst, hrest⟩ := List.pairwise_cons.1 h
      have hne : ∀ g ∈ fs, f.1 ≠ g.1 := by
        intro g hg heq
        have hlt := hfirst g hg
        rw [heq] at hlt
        simp at hlt
      rcases List.mem_cons.1 ha with rfl | ha
      · have hfilter : fs.filter (fun g => g.1 != a) = fs :=
          List.filter_eq_self.2 fun g hg => bne_iff_ne.2 fun heq => hne g hg heq.symm
        rw [List.filter_cons_of_neg (by simp), hfilter, Product.sumOf_cons]
      · rw [List.filter_cons_of_pos (by simpa using hne _ ha), Product.sumOf_cons, Product.sumOf_cons,
          ih hrest ha, add_left_comm]

/-- What is left of an equation is a multiple of the difference between the variable and its solution. -/
theorem eval_of_solveFor? {value : UnitTerm} (hpivot : pivot? u = some (id, p))
    (hvalue : solveFor? u id p = some value) : u.eval val = p.val • (val (.var id) - value.eval val) := by
  obtain ⟨hmem, hdivides⟩ := of_pivot? hpivot
  obtain ⟨factors, hfactors, h⟩ := Option.bind_eq_some_iff.1 hvalue
  cases h
  -- The power of the variable divides all others, so nothing is lost in the division.
  have hpowers : Forall₂ (fun f g => f ∈ u.factors ∧ g.1 = f.1 ∧ -p.val * g.2.val = f.2.val)
      (u.factors.filter fun f => f.1 != .var id) factors := by
    refine (forall₂_and_mem (mapM_eq_some_iff.1 hfactors)).imp fun f g ⟨hf, hfg⟩ => ?_
    obtain ⟨q, hq, hg⟩ := Option.bind_eq_some_iff.1 hfg
    cases hg
    have hfu := List.mem_of_mem_filter hf
    have hdvd : p.val ∣ -f.2.val := by
      have hmod := List.all_eq_true.1 hdivides f hfu
      exact Int.dvd_neg.2 (Int.dvd_of_emod_eq_zero (by simpa using hmod))
    refine ⟨hfu, rfl, ?_⟩
    rw [Exponent.ofInt?_eq_some_iff.1 hq, Int.neg_mul, Int.mul_ediv_cancel' hdvd, Int.neg_neg]
  have hascending : Ascending Prod.fst factors := by
    refine Ascending.of_forall₂ hpowers (u.ordered.filter _) fun f f' g g' hfg hfg' hlt => ?_
    rwa [hfg.2.1, hfg'.2.1]
  have hnonzero : ∀ g ∈ factors, g.2 ≠ 0 := by
    rintro g hg hzero
    obtain ⟨f, -, hfu, -, hpower⟩ := exists_of_forall₂ hpowers g hg
    rw [hzero, Exponent.val_zero, Int.mul_zero] at hpower
    exact u.nonzero f hfu (Exponent.val_eq_zero_iff.1 hpower.symm)
  have hothers : -p.val • Product.eval val (.ofFactors factors) =
      Product.sumOf val (u.factors.filter fun f => f.1 != .var id) := by
    rw [Product.eval, Product.factors_ofFactors hascending hnonzero]
    refine Product.smul_sumOf_of_forall₂ (hpowers.imp fun f g hfg => ?_)
    rw [hfg.2.1, smul_smul, hfg.2.2]
  rw [Product.eval, sumOf_filter_ne u.ordered hmem, ← hothers, neg_smul, ← sub_eq_add_neg, ← smul_sub]

/-- A variable that has the value which solves an equation satisfies it. -/
theorem eval_of_solve? {value : UnitTerm} (h : solve? u = some (id, value))
    (hid : val (.var id) = value.eval val) : u.eval val = 0 := by
  obtain ⟨p, hpivot, hvalue⟩ := solve?_eq_some_iff.1 h
  rw [eval_of_solveFor? hpivot hvalue, hid, sub_self, smul_zero]

end UnitTerm

namespace Store

variable {G : Type} [AddCommGroup G] {val : Atom VarId → G} {s s' : Store} {u v w : UnitTerm}

/-- A unit without variables stays as it is. -/
theorem resolve_eq_self (hu : ∀ id, .var id ∉ u.atoms) : s.resolve u = u := by
  have hresolve : ∀ n, s.resolveWithin n u = u := by
    intro n
    cases n with
    | zero => rfl
    | succ n =>
        rw [resolveWithin, Product.bind_congr (g := Product.single) fun a ha => ?_, Product.bind_single]
        cases a with
        | var id => exact absurd ha (hu id)
        | unit w => rfl
  exact hresolve _

/-- Units that are the same when they are resolved need no change of the store. -/
theorem unifyUnits_of_beq (h : s.resolve u == s.resolve v) : s.unifyUnits u v = .ok s := by
  obtain ⟨q, hq, hone⟩ := Product.exists_divide?_of_beq h
  exact unifyUnits_eq_ok_iff.2 ⟨q, hq, .inl ⟨hone, rfl⟩⟩

theorem unifyUnits_self (s : Store) (u : UnitTerm) : s.unifyUnits u u = .ok s :=
  unifyUnits_of_beq (Product.beq_refl _)

/-- Replace unit variables by their values in at most `steps` steps, if all powers on the way fit. -/
def resolveWithin? (s : Store) : Nat → UnitTerm → Option UnitTerm
  | 0, u => some u
  | steps + 1, u =>
      u.bind? fun atom =>
        match atom with
        | .unit _ => some (.single atom)
        | .var id =>
            match s.unitValue? id with
            | none => some (.single atom)
            | some value => s.resolveWithin? steps value

/-- Replace unit variables by their values, if all powers on the way fit. -/
def resolve? (s : Store) (u : UnitTerm) : Option UnitTerm :=
  s.resolveWithin? s.units.size u

theorem resolve_of_resolve? (h : s.resolve? u = some w) : s.resolve u = w := by
  have hresolve : ∀ n u w, s.resolveWithin? n u = some w → s.resolveWithin n u = w := by
    intro n
    induction n with
    | zero =>
        intro u w h
        cases h
        rfl
    | succ n ih =>
        intro u w h
        refine Product.bind_of_bind? (fun a x hx => ?_) h
        cases a with
        | unit _ =>
            cases hx
            rfl
        | var id =>
            cases hvalue : s.unitValue? id with
            | none =>
                simp only [hvalue] at hx ⊢
                cases hx
                rfl
            | some value =>
                simp only [hvalue] at hx ⊢
                exact ih value x hx
  exact hresolve _ u w h

/-- All powers fit when the unit is resolved. -/
def ResolvesExactly (s : Store) (u : UnitTerm) : Prop :=
  (s.resolve? u).isSome

/-- Each unit variable has the value of the unit that it is bound to. -/
def UnitsEvaluatedBy (s : Store) (val : Atom VarId → G) : Prop :=
  ∀ id u, s.unitValue? id = some u → val (.var id) = u.eval val

theorem UnitsEvaluatedBy.of_extends (h : s'.UnitsEvaluatedBy val) (hextends : s.Extends s') :
    s.UnitsEvaluatedBy val :=
  fun id u hvalue => h id u (hextends.units id u hvalue)

/-- Replacing unit variables by their values keeps the value. -/
theorem UnitsEvaluatedBy.eval_resolve (hs : s.UnitsEvaluatedBy val) (hval : Product.Respects val)
    (h : s.ResolvesExactly u) : (s.resolve u).eval val = u.eval val := by
  have hresolve : ∀ n u w, s.resolveWithin? n u = some w → w.eval val = u.eval val := by
    intro n
    induction n with
    | zero =>
        intro u w h
        cases h
        rfl
    | succ n ih =>
        intro u w h
        refine Product.eval_of_bind? hval (fun a x hx => ?_) h
        cases a with
        | unit _ =>
            cases hx
            exact Product.eval_single
        | var id =>
            cases hvalue : s.unitValue? id with
            | none =>
                simp only [hvalue] at hx
                cases hx
                exact Product.eval_single
            | some value =>
                simp only [hvalue] at hx
                exact (ih value x hx).trans (hs id value hvalue).symm
  obtain ⟨w, hw⟩ := Option.isSome_iff_exists.1 h
  rw [resolve_of_resolve? hw]
  exact hresolve _ u w hw

/-- A store that comes from making two units equal gives them the same value. -/
theorem UnitsEvaluatedBy.eval_eq_of_unifyUnits (hs' : s'.UnitsEvaluatedBy val) (hval : Product.Respects val)
    (hs : s.WellFormed) (hubelow : UnitTerm.Below s.units.size u) (hvbelow : UnitTerm.Below s.units.size v)
    (hu : s.ResolvesExactly u) (hv : s.ResolvesExactly v) (h : s.unifyUnits u v = .ok s') :
    u.eval val = v.eval val := by
  have hmodel := hs'.of_extends (hs.unifyUnits hubelow hvbelow h).2
  obtain ⟨q, hq, hcases⟩ := unifyUnits_eq_ok_iff.1 h
  have hquotient : q.eval val = u.eval val - v.eval val := by
    rw [← hmodel.eval_resolve hval hu, ← hmodel.eval_resolve hval hv]
    exact Product.eval_of_divide? hval hq
  have hzero : q.eval val = 0 := by
    rcases hcases with ⟨hone, -⟩ | ⟨-, id, value, hsolve, rfl⟩
    · exact Product.eval_of_isOne hone
    · have hid := (hs.open_of_solve? hubelow hvbelow hq hsolve).1
      exact UnitTerm.eval_of_solve? hsolve (hs' id value (by rw [unitValue?_assignUnit hid, if_pos rfl]))
  rw [hzero] at hquotient
  exact sub_eq_zero.1 hquotient.symm

/-- The values of the declared units and of the variables without a value can be chosen at will. -/
theorem WellFormed.exists_unitsEvaluatedBy (hs : s.WellFormed) (start : Atom VarId → G) :
    ∃ val, s.UnitsEvaluatedBy val ∧ (∀ w, val (.unit w) = start (.unit w)) ∧
      ∀ id, s.unitValue? id = none → val (.var id) = start (.var id) := by
  let F (id : VarId) (vars : VarId → G) : G :=
    (s.unitValue? id).elim (start (.var id)) fun u => u.eval (Atom.withVars start vars)
  have hF : ∀ id vars vars', (∀ j, s.UnitEdge id j → vars j = vars' j) → F id vars = F id vars' := by
    intro id vars vars' h
    dsimp only [F]
    cases hvalue : s.unitValue? id with
    | none => rfl
    | some u =>
        refine Product.eval_congr fun a ha => ?_
        cases a with
        | var j => exact h j ⟨u, hvalue, ha⟩
        | unit w => rfl
  obtain ⟨vars, hvars⟩ := hs.unitsAcyclic.exists_fixpoint (fun _ _ => hs.lt_of_unitEdge) F hF
  refine ⟨Atom.withVars start vars, fun id u hvalue => (hvars id).trans ?_, fun _ => rfl,
    fun id hnone => (hvars id).trans ?_⟩
  · dsimp only [F]
    rw [hvalue, Option.elim_some]
  · dsimp only [F]
    rw [hnone, Option.elim_none]

/-- There are values under which the open variables are independent of each other and of the declared units, so that
the value of a unit shows what is left when it is resolved. -/
theorem WellFormed.exists_independent (hs : s.WellFormed) :
    ∃ val : Atom VarId → Atom VarId → Int, Product.Respects val ∧ s.UnitsEvaluatedBy val ∧
      (∀ w, val (.unit w) = Product.unitPower (.unit w)) ∧
      ∀ u, s.ResolvesExactly u → (s.resolve u).eval Product.unitPower = u.eval val := by
  obtain ⟨val, hval, hunit, hopen⟩ := hs.exists_unitsEvaluatedBy Product.unitPower
  have hrespects : Product.Respects val := by
    intro a b hab
    cases a with
    | var id => rw [Atom.compare_var_eq_iff.1 hab]
    | unit w =>
        obtain ⟨w', rfl, -⟩ := Atom.compare_unit_eq_iff.1 hab
        rw [hunit, hunit]
        exact Product.respects_unitPower _ _ hab
  refine ⟨val, hrespects, hval, hunit, fun u hu => ?_⟩
  -- What is left after resolving are declared units and open variables, which stand for themselves.
  rw [← hval.eval_resolve hrespects hu]
  refine Product.eval_congr fun a ha => ?_
  cases a with
  | var id => exact (hopen id (hs.unitValue?_of_mem_resolve ha)).symm
  | unit w => exact (hunit w).symm

/-- Units that have the same value whatever the open variables stand for are the same when they are resolved. -/
theorem WellFormed.resolve_beq (hs : s.WellFormed) (hu : s.ResolvesExactly u) (hv : s.ResolvesExactly v)
    (h : ∀ val : Atom VarId → Atom VarId → Int, Product.Respects val → s.UnitsEvaluatedBy val →
      u.eval val = v.eval val) : s.resolve u == s.resolve v := by
  obtain ⟨val, hrespects, hval, -, hfree⟩ := hs.exists_independent
  refine Product.beq_of_eval_unitPower_eq ?_
  rw [hfree u hu, hfree v hv, h val hrespects hval]

/-- Units that have the same value whatever the open variables stand for are equal as they are. -/
theorem WellFormed.unifyUnits_eq_ok_self (hs : s.WellFormed) (hu : s.ResolvesExactly u) (hv : s.ResolvesExactly v)
    (h : ∀ val : Atom VarId → Atom VarId → Int, Product.Respects val → s.UnitsEvaluatedBy val →
      u.eval val = v.eval val) : s.unifyUnits u v = .ok s :=
  unifyUnits_of_beq (hs.resolve_beq hu hv h)

end Store

end Tabula
