import Tabula.Name
import Tabula.Product

/-!
# Units of measure

Units are products of powers, on three levels:

* a `Measure` is a product of declared units, such as `m*s^-1`;
* a `UnitScheme` may also mention unit variables by name, as users write them;
* a `UnitTerm` may also mention numbered unit variables, whose values are still sought.

A declared unit has a description for people.  It travels with the unit through schemes and terms but
takes no part in any comparison.
-/

namespace Tabula

/-- A declared unit. -/
structure SingleUnit where
  name : Name
  description : String
deriving DecidableEq

/-- A unit that is known by its name only. -/
def SingleUnit.named (n : Name) : SingleUnit :=
  ⟨n, ""⟩

/-- A factor of a unit that may mention variables. -/
inductive Atom (ν : Type) where
  | var (v : ν)
  | unit (u : SingleUnit)
deriving DecidableEq

namespace Atom

variable {ν : Type}

/-- Variables come before declared units; declared units are told apart by their names. -/
protected def compare [Ord ν] : Atom ν → Atom ν → Ordering
  | var v, var w => Ord.compare v w
  | var _, unit _ => .lt
  | unit _, var _ => .gt
  | unit u, unit w => Ord.compare u.name w.name

instance [Ord ν] : Ord (Atom ν) :=
  ⟨Atom.compare⟩

theorem compare_var [Ord ν] (v w : ν) :
    Ord.compare (var v) (var w) = Ord.compare v w := rfl

theorem compare_unit [Ord ν] (u w : SingleUnit) :
    Ord.compare (unit u : Atom ν) (unit w) = Ord.compare u.name w.name := rfl

theorem not_isLE_compare_unit_var [Ord ν] (u : SingleUnit) (v : ν) :
    ¬ (Ord.compare (unit u) (var v)).isLE := by
  simp [Ord.compare, Atom.compare]

instance [Ord ν] [Std.TransOrd ν] : Std.TransOrd (Atom ν) where
  eq_swap {a b} := by
    match a, b with
    | var v, var w =>
        change Ord.compare v w = (Ord.compare w v).swap
        exact Std.OrientedCmp.eq_swap
    | var _, unit _ => rfl
    | unit _, var _ => rfl
    | unit u, unit w =>
        change Ord.compare u.name w.name = (Ord.compare w.name u.name).swap
        exact Std.OrientedCmp.eq_swap
  isLE_trans {a b c} hab hbc := by
    match a, b, c with
    | var u, var v, var w =>
        change (Ord.compare u v).isLE at hab
        change (Ord.compare v w).isLE at hbc
        change (Ord.compare u w).isLE
        exact Std.TransCmp.isLE_trans hab hbc
    | var _, _, unit _ => rfl
    | var _, unit _, var _ => exact absurd hbc (not_isLE_compare_unit_var _ _)
    | unit _, var _, _ => exact absurd hab (not_isLE_compare_unit_var _ _)
    | unit _, unit _, var _ => exact absurd hbc (not_isLE_compare_unit_var _ _)
    | unit u, unit v, unit w =>
        change (Ord.compare u.name v.name).isLE at hab
        change (Ord.compare v.name w.name).isLE at hbc
        change (Ord.compare u.name w.name).isLE
        exact Std.TransCmp.isLE_trans hab hbc

/-- The name of the variable, if the atom is one. -/
def var? : Atom ν → Option ν
  | var v => some v
  | unit _ => none

end Atom

/-- A unit without variables. -/
abbrev Measure := Product Name

/-- A unit that may mention named variables. -/
abbrev UnitScheme := Product (Atom Name)

/-- The number of a variable whose value is sought. -/
abbrev VarId := Nat

/-- A unit that may mention numbered variables. -/
abbrev UnitTerm := Product (Atom VarId)

/-- The written form of a unit without variables. -/
def Measure.text (m : Measure) : String :=
  m.textWith id

/-- A variable is marked by the word `@unitvar`. -/
def UnitScheme.atomText : Atom Name → String
  | .var v => "@unitvar " ++ v
  | .unit u => u.name

/-- The written form of a unit. -/
def UnitScheme.text (u : UnitScheme) : String :=
  u.textWith UnitScheme.atomText

/-- The unit without variables, among the units that may mention them. -/
def Measure.lift {ν : Type} [Ord ν] [Std.TransOrd ν] (m : Measure) : Product (Atom ν) :=
  .ofFactors (m.factors.map fun f => (.unit (.named f.1), f.2))

/-- The variables of a unit with their powers, in ascending order. -/
def UnitTerm.vars (u : UnitTerm) : List (VarId × Exponent) :=
  u.factors.filterMap fun f => f.1.var?.map fun v => (v, f.2)

/-- The unit without variables, unless it mentions one. -/
def UnitTerm.toMeasure? (u : UnitTerm) : Option Measure := do
  let factors ← u.factors.mapM fun f =>
    match f.1 with
    | .var _ => none
    | .unit w => some (w.name, f.2)
  return .ofFactors factors

end Tabula
