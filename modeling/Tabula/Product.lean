import Tabula.Ascending
import Tabula.Exponent

/-!
# Products of powers

A product assigns a power to finitely many atoms: `m * s^-2`.  It is kept in one canonical form, a list
of factors in ascending order of the atoms in which no power is zero, so the powers determine the list.

Atoms are told apart by their order only: two atoms for which `compare` answers `.eq` stand for the same
thing even if they carry different notes.  The atom that was there first keeps its notes.

The view of a product is `power`, the power of each atom.  Multiplication and powers come in a clamping
form and in a checked form (`?`) that refuses a power out of range.
-/

namespace Tabula

/-- A product of powers of atoms, in canonical form. -/
structure Product (α : Type) [Ord α] where
  factors : List (α × Exponent)
  ordered : Ascending Prod.fst factors
  nonzero : ∀ f ∈ factors, f.2 ≠ 0

namespace Product

variable {α : Type} [Ord α]

/-- The power of `a` in a list of factors. -/
def powerIn (a : α) : List (α × Exponent) → Exponent
  | [] => 0
  | f :: rest => if compare a f.1 = .eq then f.2 else powerIn a rest

/-- Write the power of `a` in a list of factors.  A factor that is already there keeps its atom, and a
zero power removes it. -/
def setIn (a : α) (p : Exponent) : List (α × Exponent) → List (α × Exponent)
  | [] => if p = 0 then [] else [(a, p)]
  | f :: rest =>
      match compare a f.1 with
      | .lt => if p = 0 then f :: rest else (a, p) :: f :: rest
      | .eq => if p = 0 then rest else (f.1, p) :: rest
      | .gt => f :: setIn a p rest

theorem mem_setIn {a : α} {p : Exponent} {f : α × Exponent} {fs : List (α × Exponent)}
    (h : f ∈ setIn a p fs) :
    f ∈ fs ∨ (f.2 = p ∧ p ≠ 0 ∧ (f.1 = a ∨ ∃ q, (f.1, q) ∈ fs ∧ compare a f.1 = .eq)) := by
  induction fs with
  | nil =>
      simp only [setIn] at h
      split at h
      · simp at h
      · simp_all
  | cons g rest ih =>
      simp only [setIn] at h
      split at h
      · split at h
        · exact .inl h
        · rcases List.mem_cons.1 h with rfl | h
          · exact .inr ⟨rfl, by assumption, .inl rfl⟩
          · exact .inl h
      · split at h
        · exact .inl (List.mem_cons_of_mem _ h)
        · rcases List.mem_cons.1 h with rfl | h
          · exact .inr ⟨rfl, by assumption, .inr ⟨g.2, List.mem_cons_self, by assumption⟩⟩
          · exact .inl (List.mem_cons_of_mem _ h)
      · rcases List.mem_cons.1 h with rfl | h
        · exact .inl List.mem_cons_self
        · rcases ih h with h | ⟨hp, hzero, h⟩
          · exact .inl (List.mem_cons_of_mem _ h)
          · refine .inr ⟨hp, hzero, ?_⟩
            rcases h with h | ⟨q, hq, heq⟩
            · exact .inl h
            · exact .inr ⟨q, List.mem_cons_of_mem _ hq, heq⟩

theorem setIn_ascending [Std.TransOrd α] (a : α) (p : Exponent) {fs : List (α × Exponent)}
    (h : Ascending Prod.fst fs) : Ascending Prod.fst (setIn a p fs) := by
  induction fs with
  | nil =>
      simp only [setIn]
      split
      · exact h
      · exact List.pairwise_singleton _ _
  | cons f rest ih =>
      obtain ⟨hfirst, hrest⟩ := List.pairwise_cons.1 h
      simp only [setIn]
      split
      · rename_i hlt
        split
        · exact h
        · refine List.pairwise_cons.2 ⟨fun g hg => ?_, h⟩
          rcases List.mem_cons.1 hg with rfl | hg
          · exact hlt
          · exact Std.TransCmp.lt_trans hlt (hfirst g hg)
      · split
        · exact hrest
        · exact List.pairwise_cons.2 ⟨fun g hg => hfirst g hg, hrest⟩
      · rename_i hgt
        refine List.pairwise_cons.2 ⟨fun g hg => ?_, ih hrest⟩
        rcases mem_setIn hg with hg | ⟨-, -, hg | ⟨q, hq, -⟩⟩
        · exact hfirst g hg
        · exact hg ▸ Std.OrientedCmp.lt_of_gt hgt
        · exact hfirst (g.1, q) hq

theorem setIn_nonzero {a : α} {p : Exponent} {fs : List (α × Exponent)}
    (h : ∀ f ∈ fs, f.2 ≠ 0) : ∀ f ∈ setIn a p fs, f.2 ≠ 0 := by
  intro f hf
  rcases mem_setIn hf with hf | ⟨hp, hzero, -⟩
  · exact h f hf
  · exact hp ▸ hzero

/-- The product of no factors. -/
def one : Product α where
  factors := []
  ordered := Ascending.nil _
  nonzero := by simp

instance : Inhabited (Product α) :=
  ⟨one⟩

/-- One atom to the first power. -/
def single (a : α) : Product α where
  factors := [(a, 1)]
  ordered := List.pairwise_singleton _ _
  nonzero := by
    intro f hf
    rw [List.mem_singleton.1 hf]
    exact Exponent.one_ne_zero

/-- The power of an atom: zero for an atom that is not a factor. -/
def power (u : Product α) (a : α) : Exponent :=
  powerIn a u.factors

/-- There is no factor. -/
def isOne (u : Product α) : Bool :=
  u.factors.isEmpty

/-- The same atoms with the same powers, whatever notes the atoms carry. -/
def sameFactors : List (α × Exponent) → List (α × Exponent) → Bool
  | [], [] => true
  | f :: fs, g :: gs => (compare f.1 g.1).isEq && f.2 == g.2 && sameFactors fs gs
  | _, _ => false

instance : BEq (Product α) :=
  ⟨fun u v => sameFactors u.factors v.factors⟩

theorem ascending_filterMap {fs : List (α × Exponent)} (h : Ascending Prod.fst fs)
    (g : α × Exponent → Option (α × Exponent)) (hg : ∀ f f', g f = some f' → f'.1 = f.1) :
    Ascending Prod.fst (fs.filterMap g) := by
  refine List.Pairwise.filterMap g ?_ h
  intro a b hlt a' ha' b' hb'
  rw [hg a a' ha', hg b b' hb']
  exact hlt

/-- One factor to the power `n`, or nothing if its power becomes zero. -/
def raiseFactor (n : Exponent) (f : α × Exponent) : Option (α × Exponent) :=
  let p := Exponent.clamp (f.2.val * n.val)
  if p = 0 then none else some (f.1, p)

/-- A power of a product; products of powers are clamped. -/
def raise (u : Product α) (n : Exponent) : Product α where
  factors := u.factors.filterMap (raiseFactor n)
  ordered := by
    refine ascending_filterMap u.ordered _ ?_
    intro f f' h
    simp only [raiseFactor] at h
    split at h
    · simp at h
    · simp only [Option.some.injEq] at h
      rw [← h]
  nonzero := by
    intro f' hf'
    obtain ⟨f, -, h⟩ := List.mem_filterMap.1 hf'
    simp only [raiseFactor] at h
    split at h
    · simp at h
    · simp only [Option.some.injEq] at h
      rw [← h]
      assumption

/-- A power of a product, if all products of powers fit. -/
def raise? (u : Product α) (n : Exponent) : Option (Product α) :=
  if ∀ f ∈ u.factors, Exponent.Fits (f.2.val * n.val) then some (u.raise n) else none

section Multiplication

variable [Std.TransOrd α]

/-- Write the power of one atom. -/
def set (u : Product α) (a : α) (p : Exponent) : Product α where
  factors := setIn a p u.factors
  ordered := setIn_ascending a p u.ordered
  nonzero := setIn_nonzero u.nonzero

/-- Add to the power of one atom, clamping the sum. -/
def addPower (u : Product α) (a : α) (p : Exponent) : Product α :=
  u.set a (.clamp ((u.power a).val + p.val))

/-- Add to the power of one atom, if the sum fits. -/
def addPower? (u : Product α) (a : α) (p : Exponent) : Option (Product α) :=
  (Exponent.ofInt? ((u.power a).val + p.val)).map (u.set a)

/-- Subtract from the power of one atom, if the difference fits. -/
def subPower? (u : Product α) (a : α) (p : Exponent) : Option (Product α) :=
  (Exponent.ofInt? ((u.power a).val - p.val)).map (u.set a)

/-- Multiply out a list of factors from left to right, in which atoms may repeat. -/
def ofFactors (fs : List (α × Exponent)) : Product α :=
  fs.foldl (fun u f => u.addPower f.1 f.2) one

/-- The product of two products; sums of powers are clamped. -/
def times (u v : Product α) : Product α :=
  v.factors.foldl (fun w f => w.addPower f.1 f.2) u

/-- The product of two products, if all sums of powers fit. -/
def times? (u v : Product α) : Option (Product α) :=
  v.factors.foldlM (fun w f => w.addPower? f.1 f.2) u

/-- The quotient of two products: the product with the inverse, clamped at both steps. -/
def divide (u v : Product α) : Product α :=
  u.times (v.raise .negOne)

/-- The quotient of two products by way of the inverse.  It is refused if the inverse of `v` has a power
out of range, even where the quotient itself would have none. -/
def divideByInverse? (u v : Product α) : Option (Product α) := do
  u.times? (← v.raise? .negOne)

/-- The quotient of two products, if all differences of powers fit. -/
def divide? (u v : Product α) : Option (Product α) :=
  v.factors.foldlM (fun w f => w.subPower? f.1 f.2) u

/-- The product of powers of products, multiplied out from left to right. -/
def ofPowers (us : List (Product α × Exponent)) : Product α :=
  us.foldl (fun w f => w.times (f.1.raise f.2)) one

end Multiplication

/-- Replace every atom by a product. -/
def bind {β : Type} [Ord β] [Std.TransOrd β] (u : Product α) (f : α → Product β) : Product β :=
  ofPowers (u.factors.map fun g => (f g.1, g.2))

/-- Replace every atom by a product; the first atom without one is the error. -/
def bindM {ε β : Type} [Ord β] [Std.TransOrd β] (u : Product α)
    (f : α → Except ε (Product β)) : Except ε (Product β) := do
  let values ← u.factors.mapM fun g => do return (← f g.1, g.2)
  return ofPowers values

/-- The factors joined by `*`, each with its power unless that is one; the empty product is `1`. -/
def textWith (label : α → String) (u : Product α) : String :=
  match u.factors with
  | [] => "1"
  | fs => "*".intercalate (fs.map fun f => label f.1 ++ if f.2 = 1 then "" else "^" ++ f.2.text)

end Product

end Tabula
