import Tabula.Proofs.UnitPivots

/-!
# Solving equations between units in machine arithmetic

`UnitTerm.solve?` divides powers by powers.  In machine arithmetic a division can fail: there is none by zero, and the
quotient of the least integer by `-1` is out of range.  Here the search for a variable and the computation of its
value are done with 64-bit integers, where each remainder, each division and each change of sign may fail, and it is
shown that none of them does.  Divisions round towards zero in machine arithmetic and downwards in `solve?`; the
divisions that are made leave no rest, so this makes no difference either.

An outer `none` is a failure of the arithmetic, an inner `none` is an equation without a solution.
-/

namespace Tabula

namespace Machine

/-- The integer fits in 64 bits. -/
def Fits (n : Int) : Prop :=
  -9223372036854775808 ≤ n ∧ n ≤ 9223372036854775807

instance (n : Int) : Decidable (Fits n) :=
  inferInstanceAs (Decidable (_ ∧ _))

/-- The opposite, if it fits. -/
def neg? (a : Int) : Option Int :=
  if Fits (-a) then some (-a) else none

/-- The quotient, rounded towards zero.  There is none if the divisor is zero or the quotient does not fit. -/
def div? (a b : Int) : Option Int :=
  if b ≠ 0 ∧ Fits (a.tdiv b) then some (a.tdiv b) else none

/-- The rest of a division.  There is none if there is no quotient. -/
def rem? (a b : Int) : Option Int :=
  if b ≠ 0 ∧ Fits (a.tdiv b) then some (a.tmod b) else none

/-- An integer no larger than a power fits, whatever its sign. -/
theorem fits_of_natAbs_le {n : Int} (p : Exponent) (h : n.natAbs ≤ p.val.natAbs) : Fits n := by
  have hp := p.fits_val
  unfold Exponent.Fits at hp
  unfold Fits
  omega

theorem rem?_of_ne_zero (p : Exponent) {q : Int} (hq : q ≠ 0) : rem? p.val q = some (p.val.tmod q) :=
  if_pos ⟨hq, fits_of_natAbs_le p (Int.natAbs_tdiv_le_natAbs _ _)⟩

theorem neg?_val (p : Exponent) : neg? p.val = some (-p.val) :=
  if_pos (fits_of_natAbs_le p (Int.natAbs_neg _).le)

/-- The quotient by a divisor is exact. -/
theorem div?_neg_of_dvd (p : Exponent) {q : Int} (hq : q ≠ 0) (hdvd : q ∣ p.val) :
    div? (-p.val) q = some (-p.val / q) := by
  have hsize : ((-p.val).tdiv q).natAbs ≤ p.val.natAbs :=
    (Int.natAbs_tdiv_le_natAbs _ _).trans (Int.natAbs_neg _).le
  rw [div?, if_pos ⟨hq, fits_of_natAbs_le p hsize⟩, Int.tdiv_eq_ediv_of_dvd (Int.dvd_neg.2 hdvd)]

end Machine

section Steps

variable {α β : Type} {xs : List α}

/-- If no step of a test over a list fails, the test gives an answer. -/
theorem allM_eq_some {f : α → Option Bool} {g : α → Bool} (h : ∀ x ∈ xs, f x = some (g x)) :
    xs.allM f = some (xs.all g) := by
  induction xs with
  | nil => rfl
  | cons x xs ih =>
      have hrest := ih fun y hy => h y (List.mem_cons_of_mem _ hy)
      rw [List.allM, h x List.mem_cons_self, List.all_cons]
      cases g x with
      | false => rfl
      | true => exact hrest

theorem filterM_eq_some {f : α → Option Bool} {g : α → Bool} (h : ∀ x ∈ xs, f x = some (g x)) :
    xs.filterM f = some (xs.filter g) := by
  have hloop : ∀ kept : List α, xs.filterAuxM f kept = some ((xs.filter g).reverse ++ kept) := by
    induction xs with
    | nil => exact fun _ => rfl
    | cons x xs ih =>
        intro kept
        have hrest := ih fun y hy => h y (List.mem_cons_of_mem _ hy)
        rw [List.filterAuxM, h x List.mem_cons_self, List.filter_cons]
        cases g x with
        | false => exact hrest kept
        | true =>
            rw [if_pos rfl, List.reverse_cons, List.append_assoc]
            exact hrest (x :: kept)
  rw [List.filterM, hloop, List.append_nil]
  exact congrArg some (List.reverse_reverse _)

theorem mapM_eq_some {f : α → Option β} {g : α → β} (h : ∀ x ∈ xs, f x = some (g x)) :
    xs.mapM f = some (xs.map g) := by
  induction xs with
  | nil => rfl
  | cons x xs ih =>
      rw [List.mapM_cons, h x List.mem_cons_self, ih fun y hy => h y (List.mem_cons_of_mem _ hy)]
      rfl

end Steps

namespace UnitTerm

variable {u : UnitTerm} {x : VarId} {p : Exponent}

/-- Whether the power divides every power of the unit, by the rests of machine divisions. -/
def machineDividesPowers? (u : UnitTerm) (p : Exponent) : Option Bool :=
  u.factors.allM fun f => (Machine.rem? f.2.val p.val).map (· == 0)

/-- The variable for which the equation `u = 1` is solved, by the rests of machine divisions. -/
def machinePivot? (u : UnitTerm) : Option (Option (VarId × Exponent)) :=
  ((UnitTerm.vars u).filterM fun v => machineDividesPowers? u v.2).map smallestPower?

/-- The power of an atom in the solution, by a machine division. -/
def machineShare? (p : Exponent) (f : Atom VarId × Exponent) : Option (Option (Atom VarId × Exponent)) :=
  ((Machine.neg? f.2.val).bind fun n => Machine.div? n p.val).map fun q => (Exponent.ofInt? q).map (Prod.mk f.1)

/-- The value of the variable `x` that solves the equation `u = 1`, by machine divisions. -/
def machineSolveFor? (u : UnitTerm) (x : VarId) (p : Exponent) : Option (Option UnitTerm) :=
  ((u.factors.filter fun f => f.1 != .var x).mapM (machineShare? p)).map fun shares =>
    (shares.mapM id : Option _).map Product.ofFactors

/-- A variable and its value that solve the equation `u = 1`, in machine arithmetic. -/
def machineSolve? (u : UnitTerm) : Option (Option (VarId × UnitTerm)) :=
  (machinePivot? u).bind fun pivot =>
    pivot.elim (some none) fun v => (machineSolveFor? u v.1 v.2).map fun value => value.map (Prod.mk v.1)

theorem machineDividesPowers?_eq (hp : p.val ≠ 0) : machineDividesPowers? u p = some (dividesPowers u p) := by
  refine allM_eq_some fun f _ => ?_
  rw [Machine.rem?_of_ne_zero f.2 hp, Option.map_some]
  -- One rest is zero if the other one is.
  refine congrArg some (Bool.eq_iff_iff.2 ?_)
  rw [beq_iff_eq, beq_iff_eq, ← Int.dvd_iff_tmod_eq_zero, ← Int.dvd_iff_emod_eq_zero]

theorem machinePivot?_eq (u : UnitTerm) : machinePivot? u = some (pivot? u) := by
  rw [machinePivot?, filterM_eq_some fun v hv => ?_, Option.map_some, pivot?]
  exact machineDividesPowers?_eq (mt Exponent.val_eq_zero_iff.1 (mem_vars_iff_power.1 hv).2)

theorem machineSolveFor?_eq (hp : p.val ≠ 0) (hdvd : ∀ a, p.val ∣ (u.power a).val) :
    machineSolveFor? u x p = some (solveFor? u x p) := by
  have hshares : ∀ f ∈ u.factors.filter (fun f => f.1 != .var x),
      machineShare? p f = some ((Exponent.ofInt? (-f.2.val / p.val)).map (Prod.mk f.1)) := by
    intro f hf
    have hdivides := hdvd f.1
    rw [Product.power_of_mem (List.mem_filter.1 hf).1] at hdivides
    rw [machineShare?, Machine.neg?_val, Option.bind_some, Machine.div?_neg_of_dvd f.2 hp hdivides, Option.map_some]
  have hshare : (id ∘ fun f : Atom VarId × Exponent => (Exponent.ofInt? (-f.2.val / p.val)).map (Prod.mk f.1)) =
      fun f => do return (f.1, ← Exponent.ofInt? (-f.2.val / p.val)) :=
    funext fun _ => Option.map_eq_bind
  rw [machineSolveFor?, mapM_eq_some hshares, Option.map_some, List.mapM_map, hshare]
  exact congrArg some Option.map_eq_bind

theorem machineSolve?_eq (u : UnitTerm) : machineSolve? u = some (solve? u) := by
  rw [machineSolve?, machinePivot?_eq, Option.bind_some, solve?]
  cases hpivot : pivot? u with
  | none => rfl
  | some v =>
      obtain ⟨x, p⟩ := v
      obtain ⟨hx, rfl⟩ := pivot?_eq_some_iff.1 hpivot
      rw [Option.elim_some, machineSolveFor?_eq hx.nonzero hx.divides, Option.map_some]
      exact congrArg some Option.map_eq_bind

end UnitTerm

namespace Store

/-- Make two units equal, in machine arithmetic. -/
def machineUnifyUnits? (s : Store) (expected found : UnitTerm) : Option (Except UnifyError Store) :=
  let mismatch : Except UnifyError Store := .error (.unitMismatch (s.resolve expected) (s.resolve found))
  ((s.resolve expected).divide? (s.resolve found)).elim (some mismatch) fun quotient =>
    if quotient.isOne then some (.ok s)
    else
      (UnitTerm.machineSolve? quotient).map fun solution =>
        solution.elim mismatch fun v => .ok (s.assignUnit v.1 v.2)

/-- No step of the arithmetic fails when two units are made equal, and the outcome is the same. -/
theorem machineUnifyUnits?_eq (s : Store) (expected found : UnitTerm) :
    s.machineUnifyUnits? expected found = some (s.unifyUnits expected found) := by
  cases hquotient : (s.resolve expected).divide? (s.resolve found) with
  | none => simp only [machineUnifyUnits?, unifyUnits, hquotient, Option.elim_none]
  | some quotient =>
      simp only [machineUnifyUnits?, unifyUnits, hquotient, Option.elim_some, UnitTerm.machineSolve?_eq,
        Option.map_some]
      split
      · rfl
      · cases UnitTerm.solve? quotient with
        | none => rfl
        | some v => rfl

end Store

end Tabula
