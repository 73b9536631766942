import Tabula.Proofs.Acyclic
import Tabula.Proofs.TermParts
import Tabula.Store.Unify

/-!
# How the variables of a store refer to each other

A type variable refers to the type variables in its value, a unit variable to the unit variables in its
value.  A store is well formed if both relations have no cycle and nothing but its own variables is
mentioned.  Then the bounds in the functions that follow values are large enough, so these functions can be
described without them.
-/

namespace Tabula

open Relation (TransGen ReflTransGen)

namespace Store

variable {s : Store}

/-- The value of the type variable `i` mentions the type variable `j`. -/
def TypeEdge (s : Store) (i j : VarId) : Prop :=
  ∃ t, s.typeValue? i = some t ∧ t.Mentions j

/-- The value of the unit variable `i` mentions the unit variable `j`. -/
def UnitEdge (s : Store) (i j : VarId) : Prop :=
  ∃ u, s.unitValue? i = some u ∧ Atom.var j ∈ u.atoms

/-- Values mention variables of the store only, and no variable is reached from its own value. -/
structure WellFormed (s : Store) : Prop where
  typesBelow : ∀ id t, s.typeValue? id = some t → t.Below s.types.size s.units.size
  unitsBelow : ∀ id u, s.unitValue? id = some u → UnitTerm.Below s.units.size u
  typesAcyclic : Acyclic s.TypeEdge
  unitsAcyclic : Acyclic s.UnitEdge

theorem lt_of_typeValue? {id : VarId} {t : Term} (h : s.typeValue? id = some t) : id < s.types.size := by
  by_contra hge
  simp [typeValue?, Array.getElem?_eq_none (Nat.le_of_not_lt hge)] at h

theorem lt_of_unitValue? {id : VarId} {u : UnitTerm} (h : s.unitValue? id = some u) : id < s.units.size := by
  by_contra hge
  simp [unitValue?, Array.getElem?_eq_none (Nat.le_of_not_lt hge)] at h

namespace WellFormed

theorem lt_of_typeEdge (hs : s.WellFormed) {i j : VarId} (h : s.TypeEdge i j) : j < s.types.size := by
  obtain ⟨t, hvalue, hj⟩ := h
  exact (hs.typesBelow i t hvalue).lt_of_mentions hj

theorem lt_of_unitEdge (hs : s.WellFormed) {i j : VarId} (h : s.UnitEdge i j) : j < s.units.size := by
  obtain ⟨u, hvalue, hj⟩ := h
  exact hs.unitsBelow i u hvalue j hj

theorem exists_typeRank (hs : s.WellFormed) :
    ∃ rank : VarId → Nat, (∀ i j, s.TypeEdge i j → rank j < rank i) ∧ ∀ i < s.types.size, rank i < s.types.size :=
  hs.typesAcyclic.exists_rank fun _ _ => hs.lt_of_typeEdge

theorem exists_unitRank (hs : s.WellFormed) :
    ∃ rank : VarId → Nat, (∀ i j, s.UnitEdge i j → rank j < rank i) ∧ ∀ i < s.units.size, rank i < s.units.size :=
  hs.unitsAcyclic.exists_rank fun _ _ => hs.lt_of_unitEdge

end WellFormed

/-- What holds of a term and goes over from a variable to its value holds of the end of the chain. -/
theorem walk_of {P : Term → Prop} (hP : ∀ id t, s.typeValue? id = some t → P (.var id) → P t) {t : Term}
    (h : P t) : P (s.walk t) := by
  have hroot : ∀ n id, P (.var id) → P (s.rootWithin n id) := by
    intro n
    induction n with
    | zero => exact fun id h => h
    | succ n ih =>
        intro id h
        unfold rootWithin
        split
        · exact h
        · rename_i other hvalue
          exact ih other (hP id _ hvalue h)
        · rename_i t hvalue
          exact hP id _ hvalue h
  cases t with
  | var id => exact hroot _ id h
  | _ => exact h

theorem rootWithin_of_typeValue?_eq_none {id : VarId} (h : s.typeValue? id = none) (n : Nat) :
    s.rootWithin n id = .var id := by
  cases n with
  | zero => rfl
  | succ n => rw [rootWithin, h]

/-- A chain ends in a variable only if that variable has no value. -/
theorem WellFormed.typeValue?_of_walk (hs : s.WellFormed) {t : Term} {id : VarId} (h : s.walk t = .var id) :
    s.typeValue? id = none := by
  obtain ⟨rank, hedge, hrank⟩ := hs.exists_typeRank
  have hroot : ∀ n start, rank start < n → s.rootWithin n start = .var id → s.typeValue? id = none := by
    intro n
    induction n with
    | zero => exact fun start hn => absurd hn (Nat.not_lt_zero _)
    | succ n ih =>
        intro start hn h
        unfold rootWithin at h
        split at h
        · cases h
          assumption
        · rename_i other hvalue
          have hlt := hedge start other ⟨_, hvalue, .here⟩
          exact ih other (by omega) h
        · rename_i value hvar hvalue
          exact absurd h (hvar id)
  cases t with
  | var start =>
      cases hvalue : s.typeValue? start with
      | none =>
          have heq : Term.var start = .var id := (rootWithin_of_typeValue?_eq_none hvalue _).symm.trans h
          cases heq
          exact hvalue
      | some t => exact hroot _ start (hrank start (lt_of_typeValue? hvalue)) h
  | _ => cases h

/-- A term that is no variable with a value is the end of its chain. -/
theorem walk_eq_self {t : Term} (h : ∀ id, t = .var id → s.typeValue? id = none) : s.walk t = t := by
  cases t with
  | var id => exact rootWithin_of_typeValue?_eq_none (h id rfl) _
  | _ => rfl

/-- The chain of a variable goes on with its value. -/
theorem WellFormed.walk_var (hs : s.WellFormed) {id : VarId} {t : Term} (h : s.typeValue? id = some t) :
    s.walk (.var id) = s.walk t := by
  obtain ⟨rank, hedge, hrank⟩ := hs.exists_typeRank
  -- One step more or less makes no difference where the bound exceeds the rank.
  have hroot : ∀ n start, rank start < n → s.rootWithin (n + 1) start = s.rootWithin n start := by
    intro n
    induction n with
    | zero => exact fun start hn => absurd hn (Nat.not_lt_zero _)
    | succ n ih =>
        intro start hn
        rw [rootWithin, rootWithin]
        split
        · rfl
        · rename_i other hvalue
          have hlt := hedge start other ⟨_, hvalue, .here⟩
          exact ih other (by omega)
        · rfl
  have hid := hrank id (lt_of_typeValue? h)
  show s.rootWithin s.types.size id = s.walk t
  obtain ⟨n, hn⟩ := Nat.exists_eq_succ_of_ne_zero (Nat.ne_of_gt (Nat.zero_lt_of_lt hid))
  rw [hn, rootWithin, h]
  cases t with
  | var other =>
      have hlt := hedge id other ⟨_, h, .here⟩
      show s.rootWithin n other = s.rootWithin s.types.size other
      rw [hn]
      exact (hroot n other (by omega)).symm
  | _ => rfl

theorem occursWithin_of_mentions {id : VarId} {t : Term} (h : t.Mentions id) (n : Nat) :
    s.occursWithin id n t = true := by
  cases n with
  | zero => exact Term.anyVar_iff.2 ⟨id, h, beq_self_eq_true id⟩
  | succ n => exact Term.anyVar_iff.2 ⟨id, h, by simp⟩

/-- The check for occurrences finds a variable that is reached from the term. -/
theorem WellFormed.occurs_iff (hs : s.WellFormed) {id : VarId} {t : Term} :
    s.occurs id t = true ↔ ∃ j, t.Mentions j ∧ ReflTransGen s.TypeEdge j id := by
  obtain ⟨rank, hedge, hrank⟩ := hs.exists_typeRank
  constructor
  · have hsound : ∀ n t, s.occursWithin id n t = true → ∃ j, t.Mentions j ∧ ReflTransGen s.TypeEdge j id := by
      intro n
      induction n with
      | zero =>
          intro t h
          obtain ⟨j, hj, heq⟩ := Term.anyVar_iff.1 h
          exact ⟨j, hj, (beq_iff_eq.1 heq) ▸ .refl⟩
      | succ n ih =>
          intro t h
          obtain ⟨j, hj, hp⟩ := Term.anyVar_iff.1 h
          refine ⟨j, hj, ?_⟩
          rcases Bool.or_eq_true_iff.1 hp with heq | hvalue
          · exact (beq_iff_eq.1 heq) ▸ .refl
          · split at hvalue
            · cases hvalue
            · rename_i value hj'
              obtain ⟨k, hk, hpath⟩ := ih value hvalue
              exact .head ⟨value, hj', hk⟩ hpath
    exact hsound _ t
  · have hcomplete : ∀ j, ReflTransGen s.TypeEdge j id → ∀ n t, rank j ≤ n → t.Mentions j →
        s.occursWithin id n t = true := by
      intro j hpath
      induction hpath using ReflTransGen.head_induction_on with
      | refl => exact fun n t _ hmentions => occursWithin_of_mentions hmentions n
      | @head j k hjk _ ih =>
          intro n t hn hmentions
          have hlt := hedge j k hjk
          obtain ⟨value, hvalue, hk⟩ := hjk
          cases n with
          | zero => omega
          | succ n =>
              refine Term.anyVar_iff.2 ⟨j, hmentions, ?_⟩
              simp only [hvalue, ih n value (by omega) hk, Bool.or_true]
    rintro ⟨j, hmentions, hpath⟩
    rcases hpath.cases_head with rfl | ⟨k, hjk, -⟩
    · exact occursWithin_of_mentions hmentions _
    · obtain ⟨value, hvalue, -⟩ := hjk
      exact hcomplete j hpath _ t (Nat.le_of_lt (hrank j (lt_of_typeValue? hvalue))) hmentions

/-- Resolving leaves no variable that has a value. -/
theorem WellFormed.unitValue?_of_mem_resolve (hs : s.WellFormed) {u : UnitTerm} {id : VarId}
    (h : Atom.var id ∈ (s.resolve u).atoms) : s.unitValue? id = none := by
  obtain ⟨rank, hedge, hrank⟩ := hs.exists_unitRank
  have hresolve : ∀ n u, (∀ j value, Atom.var j ∈ u.atoms → s.unitValue? j = some value → rank j < n) →
      Atom.var id ∈ (s.resolveWithin n u).atoms → s.unitValue? id = none := by
    intro n
    induction n with
    | zero =>
        intro u hu h
        cases hvalue : s.unitValue? id with
        | none => rfl
        | some value => exact absurd (hu id value h hvalue) (Nat.not_lt_zero _)
    | succ n ih =>
        intro u hu h
        obtain ⟨a, ha, h⟩ := Product.mem_atoms_bind h
        cases a with
        | unit w => cases List.mem_singleton.1 h
        | var j =>
            cases hvalue : s.unitValue? j with
            | none =>
                simp only [hvalue] at h
                cases List.mem_singleton.1 h
                exact hvalue
            | some value =>
                simp only [hvalue] at h
                refine ih value (fun k _ hk _ => ?_) h
                have hlt := hedge j k ⟨value, hvalue, hk⟩
                have hj := hu j value ha hvalue
                omega
  exact hresolve _ u (fun j _ _ hvalue => hrank j (lt_of_unitValue? hvalue)) h

theorem WellFormed.resolve_below (hs : s.WellFormed) {u : UnitTerm} (hu : UnitTerm.Below s.units.size u) :
    UnitTerm.Below s.units.size (s.resolve u) := by
  have hresolve : ∀ n u, UnitTerm.Below s.units.size u → UnitTerm.Below s.units.size (s.resolveWithin n u) := by
    intro n
    induction n with
    | zero => exact fun u hu => hu
    | succ n ih =>
        intro u hu id h
        obtain ⟨a, ha, h⟩ := Product.mem_atoms_bind h
        cases a with
        | unit w => cases List.mem_singleton.1 h
        | var j =>
            cases hvalue : s.unitValue? j with
            | none =>
                simp only [hvalue] at h
                cases List.mem_singleton.1 h
                exact hu _ ha
            | some value =>
                simp only [hvalue] at h
                exact ih value (hs.unitsBelow j value hvalue) id h
  exact hresolve _ u hu

end Store

end Tabula
