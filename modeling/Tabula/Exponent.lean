/-!
# Exponents

The powers of units are integers between `-2147483648` and `2147483647`.  Arithmetic on them comes in
two forms: `clamp` moves a result that is out of range to the nearer end, `ofInt?` refuses it.
-/

namespace Tabula

/-- An integer that can be the power of a unit. -/
structure Exponent where
  val : Int
  lower : -2147483648 ≤ val
  upper : val ≤ 2147483647
deriving DecidableEq

namespace Exponent

/-- The integer is small enough to be an exponent. -/
def Fits (n : Int) : Prop :=
  -2147483648 ≤ n ∧ n ≤ 2147483647

instance (n : Int) : Decidable (Fits n) :=
  inferInstanceAs (Decidable (_ ∧ _))

/-- The exponent of this value, if it fits. -/
def ofInt? (n : Int) : Option Exponent :=
  if h : Fits n then some ⟨n, h.1, h.2⟩ else none

/-- The exponent nearest to this value. -/
def clamp (n : Int) : Exponent where
  val := if n < -2147483648 then -2147483648 else if 2147483647 < n then 2147483647 else n
  lower := by split; · decide
              split <;> omega
  upper := by split; · decide
              split <;> omega

instance : OfNat Exponent 0 :=
  ⟨⟨0, by decide, by decide⟩⟩

instance : OfNat Exponent 1 :=
  ⟨⟨1, by decide, by decide⟩⟩

/-- The power of an inverse. -/
def negOne : Exponent :=
  ⟨-1, by decide, by decide⟩

/-- Decimal digits, with a minus sign in front of a negative value. -/
def text (p : Exponent) : String :=
  match p.val with
  | .ofNat n => n.repr
  | .negSucc n => "-" ++ (n + 1).repr

@[ext] theorem ext {p q : Exponent} (h : p.val = q.val) : p = q := by
  cases p
  cases q
  simp_all

theorem fits_val (p : Exponent) : Fits p.val :=
  ⟨p.lower, p.upper⟩

@[simp] theorem val_zero : (0 : Exponent).val = 0 := rfl

@[simp] theorem val_one : (1 : Exponent).val = 1 := rfl

@[simp] theorem val_negOne : negOne.val = -1 := rfl

theorem one_ne_zero : (1 : Exponent) ≠ 0 := by
  decide

theorem val_eq_zero_iff {p : Exponent} : p.val = 0 ↔ p = 0 :=
  ⟨fun h => ext h, fun h => h ▸ rfl⟩

/-- Nothing is changed by clamping a value that fits. -/
theorem val_clamp_of_fits {n : Int} (h : Fits n) : (clamp n).val = n := by
  obtain ⟨hlower, hupper⟩ := h
  simp only [clamp]
  rw [if_neg (by omega), if_neg (by omega)]

@[simp] theorem clamp_val (p : Exponent) : clamp p.val = p :=
  ext (val_clamp_of_fits p.fits_val)

/-- The checked form gives `p` exactly at the value of `p`. -/
theorem ofInt?_eq_some_iff {n : Int} {p : Exponent} : ofInt? n = some p ↔ p.val = n := by
  unfold ofInt?
  split
  · rename_i h
    simp only [Option.some.injEq]
    exact ⟨fun hp => hp ▸ rfl, fun hp => ext hp.symm⟩
  · rename_i h
    simp only [reduceCtorEq, false_iff]
    rintro rfl
    exact h p.fits_val

/-- The checked form refuses exactly the values out of range. -/
theorem ofInt?_eq_none_iff {n : Int} : ofInt? n = none ↔ ¬ Fits n := by
  unfold ofInt?
  split <;> simp_all

end Exponent

end Tabula
