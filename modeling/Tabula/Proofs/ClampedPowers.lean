import Tabula.Proofs.FollowingValues
import Tabula.Proofs.InverseQuotients
import Tabula.Proofs.UnitSubstitution

/-!
# The powers of units that were built

For every way to come by a unit, the power of each atom in it.  Units are multiplied out from left to right, and each
step that does not fail may clamp, so most of these powers are sums that are clamped after each summand.

What is said here holds for all factors and all atoms, whether powers are clamped or not.  Where an operation is
checked, its powers are exact, and this is in `ExactPowers`.
-/

namespace Tabula

open List (Forall₂)

namespace Exponent

/-- The exponent nearest to an integer, as an integer. -/
def saturate (n : Int) : Int :=
  (clamp n).val

@[simp] theorem saturate_val (p : Exponent) : saturate p.val = p.val := by
  rw [saturate, clamp_val]

/-- The sum of the integers from left to right, brought back into range after each of them. -/
def saturatedSum (ns : List Int) : Int :=
  ns.foldl (fun sum n => saturate (sum + n)) 0

end Exponent

namespace Product

open Exponent (saturate saturatedSum)

variable {α β ε : Type} [Ord α] [Std.TransOrd α] [Ord β] [Std.TransOrd β]

omit [Std.TransOrd α] in
theorem power_one (a : α) : ((one : Product α).power a).val = 0 := rfl

omit [Std.TransOrd α] in
theorem power_single (a b : α) : ((single a).power b).val = unitPower a b := by
  show (if compare b a = .eq then (1 : Exponent) else 0).val = if compare b a = .eq then 1 else 0
  split <;> rfl

theorem power_addPower (u : Product α) (a : α) (p : Exponent) (b : α) :
    ((u.addPower a p).power b).val = saturate ((u.power b).val + p.val * unitPower a b) := by
  rw [addPower, power_set, unitPower]
  split
  · rename_i heq
    have hsame : u.power b = u.power a := powerIn_congr heq
    rw [hsame, Int.mul_one, saturate]
  · rw [Int.mul_zero, Int.add_zero, Exponent.saturate_val]

/-- Each factor adds to the power of its atom, one after the other. -/
theorem power_ofFactors (fs : List (α × Exponent)) (a : α) :
    ((ofFactors fs).power a).val = saturatedSum (fs.map fun f => f.2.val * unitPower f.1 a) := by
  have hfold : ∀ u : Product α, ((fs.foldl (fun u f => u.addPower f.1 f.2) u).power a).val =
      (fs.map fun f => f.2.val * unitPower f.1 a).foldl (fun sum n => saturate (sum + n)) (u.power a).val := by
    induction fs with
    | nil => exact fun _ => rfl
    | cons f fs ih =>
        intro u
        rw [List.foldl_cons, List.map_cons, List.foldl_cons, ih, power_addPower]
  exact hfold one

theorem power_divide (u v : Product α) (a : α) :
    ((u.divide v).power a).val = saturate ((u.power a).val + saturate (-(v.power a).val)) := by
  rw [divide, power_times, power_raise, Exponent.val_negOne, Int.mul_neg_one]
  rfl

theorem power_of_divideByInverse? {u v w : Product α} (h : u.divideByInverse? v = some w) (a : α) :
    (w.power a).val = (u.power a).val - (v.power a).val :=
  power_of_divide? (divide?_of_divideByInverse? h) a

/-- Each power of a product is clamped, and then their product after each of them. -/
theorem power_ofPowers (us : List (Product β × Exponent)) (b : β) :
    ((ofPowers us).power b).val = saturatedSum (us.map fun x => saturate (x.2.val * (x.1.power b).val)) := by
  have hfold : ∀ w : Product β, ((us.foldl (fun w x => w.times (x.1.raise x.2)) w).power b).val =
      (us.map fun x => saturate (x.2.val * (x.1.power b).val)).foldl (fun sum n => saturate (sum + n))
        (w.power b).val := by
    induction us with
    | nil => exact fun _ => rfl
    | cons x us ih =>
        intro w
        rw [List.foldl_cons, List.map_cons, List.foldl_cons, ih, power_times, power_raise, Int.mul_comm x.2.val]
        rfl
  exact hfold one

omit [Std.TransOrd α] in
theorem power_bind (u : Product α) (f : α → Product β) (b : β) :
    ((u.bind f).power b).val = saturatedSum (u.factors.map fun g => saturate (g.2.val * ((f g.1).power b).val)) := by
  rw [bind, power_ofPowers, List.map_map]
  rfl

omit [Std.TransOrd α] in
/-- If all atoms have a value, each power is that of the values. -/
theorem power_of_bindM {u : Product α} {w : Product β} {f : α → Except ε (Product β)} {val : α → β → Int}
    (hval : ∀ a x, f a = .ok x → ∀ b, val a b = (x.power b).val) (h : u.bindM f = .ok w) (b : β) :
    (w.power b).val = saturatedSum (u.factors.map fun g => saturate (g.2.val * val g.1 b)) := by
  obtain ⟨values, hvalues, rfl⟩ := bindM_eq_ok_iff.1 h
  have hfactors : values.map (fun x => saturate (x.2.val * (x.1.power b).val)) =
      u.factors.map fun g => saturate (g.2.val * val g.1 b) := by
    refine map_eq_map_iff_forall₂.2 (hvalues.flip.imp fun x g hgx => ?_)
    rw [hval g.1 x.1 hgx.1 b, hgx.2]
  rw [power_ofPowers, hfactors]

end Product

namespace Measure

/-- The powers of a unit without variables among units that may mention them. -/
def liftedPowers {ν : Type} (e : Name → Int) : Atom ν → Int
  | .var _ => 0
  | .unit w => e w.name

theorem power_lift {ν : Type} [Ord ν] [Std.TransOrd ν] [Std.LawfulEqOrd ν] (m : Measure) (a : Atom ν) :
    ((m.lift : Product (Atom ν)).power a).val = liftedPowers (fun n => (m.power n).val) a := by
  have hagree := corresponds_lift (ν := ν) m
  cases a with
  | unit w =>
      rw [liftedPowers, Product.power, Product.power,
        ← hagree.powerIn_eq Atom.compares_names ⟨w, rfl, rfl⟩]
  | var v =>
      have hne : ∀ g ∈ (m.lift : Product (Atom ν)).factors, compare (.var v) g.1 ≠ .eq := by
        intro g hg heq
        obtain ⟨f, -, ⟨w, hw, -⟩, -⟩ := exists_of_forall₂ hagree g hg
        rw [Atom.compare_var_eq_iff.1 heq] at hw
        cases hw
      rw [Product.power, Product.powerIn_of_ne hne]
      rfl

theorem power_of_toMeasure? {u : UnitTerm} {m : Measure} (h : UnitTerm.toMeasure? u = some m) (n : Name) :
    (m.power n).val = (u.power (.unit (.named n))).val := by
  have hatom : Atom.Names n (.unit (.named n) : Atom VarId) := ⟨_, rfl, rfl⟩
  rw [Product.power, Product.power, (corresponds_of_toMeasure? h).powerIn_eq Atom.compares_names hatom]

end Measure

/-- The powers of the value of an atom. -/
def TermBindings.atomPowers (b : TermBindings) (a : Atom Name) (c : Atom VarId) : Int :=
  (b.atom a).toOption.elim 0 fun v => (v.power c).val

namespace UnitScheme

open Exponent (saturate saturatedSum)

variable {u : UnitScheme}

theorem power_of_toMeasure {s : Substitution} {m : Measure} (h : toMeasure s u = .ok m) (n : Name) :
    (m.power n).val = saturatedSum (u.factors.map fun f => saturate (f.2.val * s.atomPowers f.1 n)) := by
  refine Product.power_of_bindM (fun a x hx n => ?_) h n
  rw [Substitution.atomPowers_of_atom hx, Measure.powers_apply]

theorem power_of_toTerm {b : TermBindings} {v : UnitTerm} (h : toTerm b u = .ok v) (c : Atom VarId) :
    (v.power c).val = saturatedSum (u.factors.map fun f => saturate (f.2.val * b.atomPowers f.1 c)) := by
  refine Product.power_of_bindM (fun a x hx c => ?_) h c
  rw [TermBindings.atomPowers, toOption_eq_some_iff.2 hx, Option.elim_some]

end UnitScheme

namespace Store

open Exponent (saturate saturatedSum)

/-- The powers of what a factor of a unit is replaced by, if `powers` says them for the values of variables. -/
def factorPowers (s : Store) (powers : UnitTerm → Atom VarId → Int) : Atom VarId → Atom VarId → Int
  | .unit w => Product.unitPower (.unit w)
  | .var id =>
      match s.unitValue? id with
      | none => Product.unitPower (.var id)
      | some value => powers value

/-- The powers of a unit after its variables were replaced by their values, in at most `steps` steps. -/
def resolvedPowers (s : Store) : Nat → UnitTerm → Atom VarId → Int
  | 0, u, c => (u.power c).val
  | steps + 1, u, c =>
      saturatedSum (u.factors.map fun f => saturate (f.2.val * s.factorPowers (s.resolvedPowers steps) f.1 c))

theorem power_factorValue {s : Store} {resolve : UnitTerm → UnitTerm} {powers : UnitTerm → Atom VarId → Int}
    (h : ∀ u c, ((resolve u).power c).val = powers u c) (a c : Atom VarId) :
    ((s.factorValue resolve a).power c).val = s.factorPowers powers a c := by
  cases a with
  | unit w => exact Product.power_single _ c
  | var id =>
      cases hvalue : s.unitValue? id with
      | none => simp only [factorValue, factorPowers, hvalue, Product.power_single]
      | some value => simp only [factorValue, factorPowers, hvalue, h]

theorem power_resolveWithin (s : Store) (steps : Nat) (u : UnitTerm) (c : Atom VarId) :
    ((s.resolveWithin steps u).power c).val = s.resolvedPowers steps u c := by
  induction steps generalizing u c with
  | zero => rfl
  | succ steps ih =>
      rw [resolveWithin_succ, Product.power_bind, resolvedPowers]
      simp only [power_factorValue ih]

end Store

end Tabula
