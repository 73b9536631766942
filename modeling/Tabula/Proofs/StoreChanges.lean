import Tabula.Proofs.Lists
import Tabula.Proofs.StoreGraph

/-!
# What a change of a store keeps

A store is changed by new variables and by values for variables that have none.  Both keep it well formed and
keep every value that is there.

For types this rests on the check for occurrences, which follows values.  For units it rests on the order of
the steps: an equation is resolved before it is solved, so the value of the variable that it is solved for
mentions only variables without a value, and not that variable.
-/

namespace Tabula

open Relation (ReflTransGen)

namespace UnitTerm

variable {u : UnitTerm} {id : VarId} {p : Exponent}

theorem mem_vars_iff : (id, p) ∈ UnitTerm.vars u ↔ (.var id, p) ∈ u.factors := by
  unfold UnitTerm.vars
  rw [List.mem_filterMap]
  constructor
  · rintro ⟨⟨a, q⟩, hf, h⟩
    cases a with
    | unit w => cases h
    | var v =>
        cases h
        exact hf
  · exact fun h => ⟨_, h, rfl⟩

theorem mem_of_smallestPower? {vars : List (VarId × Exponent)} {v : VarId × Exponent}
    (h : smallestPower? vars = some v) : v ∈ vars := by
  induction vars with
  | nil => cases h
  | cons w vars ih =>
      unfold smallestPower? at h
      split at h
      · cases h
        exact List.mem_cons_self
      · rename_i x hx
        split at h
        · cases h
          exact List.mem_cons_self
        · cases h
          exact List.mem_cons_of_mem _ (ih hx)

/-- An equation is solved for one of its variables, with a power that divides all others. -/
theorem of_pivot? (h : pivot? u = some (id, p)) :
    (.var id, p) ∈ u.factors ∧ dividesPowers u p = true := by
  obtain ⟨hmem, hdivides⟩ := List.mem_filter.1 (mem_of_smallestPower? h)
  exact ⟨mem_vars_iff.1 hmem, hdivides⟩

theorem mem_atoms_of_solveFor? {value : UnitTerm} (h : solveFor? u id p = some value) {a : Atom VarId}
    (ha : a ∈ value.atoms) : a ∈ u.atoms ∧ a ≠ .var id := by
  obtain ⟨factors, hfactors, h⟩ := Option.bind_eq_some_iff.1 h
  cases h
  obtain ⟨g, hg, rfl⟩ := List.mem_map.1 (Product.mem_atoms_ofFactors ha)
  obtain ⟨f, hf, hfg⟩ := exists_of_forall₂ (mapM_eq_some_iff.1 hfactors) g hg
  obtain ⟨q, -, hq⟩ := Option.bind_eq_some_iff.1 hfg
  cases hq
  obtain ⟨hfu, hne⟩ := List.mem_filter.1 hf
  exact ⟨Product.mem_atoms_of_mem (f := f) hfu, by simpa using hne⟩

theorem solve?_eq_some_iff {value : UnitTerm} :
    solve? u = some (id, value) ↔ ∃ p, pivot? u = some (id, p) ∧ solveFor? u id p = some value := by
  unfold solve?
  constructor
  · intro h
    obtain ⟨⟨id', p⟩, hpivot, h⟩ := Option.bind_eq_some_iff.1 h
    obtain ⟨value', hvalue, h⟩ := Option.bind_eq_some_iff.1 h
    cases h
    exact ⟨p, hpivot, hvalue⟩
  · rintro ⟨p, hpivot, hvalue⟩
    exact Option.bind_eq_some_iff.2 ⟨(id, p), hpivot, Option.bind_eq_some_iff.2 ⟨value, hvalue, rfl⟩⟩

/-- The solution of an equation is a value for a variable of it in terms of its other atoms. -/
theorem of_solve? {value : UnitTerm} (h : solve? u = some (id, value)) :
    Atom.var id ∈ u.atoms ∧ ∀ a ∈ value.atoms, a ∈ u.atoms ∧ a ≠ .var id := by
  obtain ⟨p, hpivot, hvalue⟩ := solve?_eq_some_iff.1 h
  exact ⟨Product.mem_atoms_of_mem (of_pivot? hpivot).1, fun a ha => mem_atoms_of_solveFor? hvalue ha⟩

end UnitTerm

namespace Store

variable {s s' : Store}

/-- Every variable and every value of the first store is in the second one. -/
structure Extends (s s' : Store) : Prop where
  types : ∀ id t, s.typeValue? id = some t → s'.typeValue? id = some t
  units : ∀ id u, s.unitValue? id = some u → s'.unitValue? id = some u
  typesSize : s.types.size ≤ s'.types.size
  unitsSize : s.units.size ≤ s'.units.size

theorem Extends.refl (s : Store) : s.Extends s :=
  ⟨fun _ _ h => h, fun _ _ h => h, Nat.le_refl _, Nat.le_refl _⟩

theorem Extends.trans {s₁ s₂ s₃ : Store} (h : s₁.Extends s₂) (h' : s₂.Extends s₃) : s₁.Extends s₃ where
  types id t ht := h'.types id t (h.types id t ht)
  units id u hu := h'.units id u (h.units id u hu)
  typesSize := Nat.le_trans h.typesSize h'.typesSize
  unitsSize := Nat.le_trans h.unitsSize h'.unitsSize

/-- To follow a term in a store and then in a later one is to follow it in the later one. -/
theorem Extends.walk_walk (h : s.Extends s') (hs' : s'.WellFormed) (t : Term) : s'.walk (s.walk t) = s'.walk t :=
  walk_of (P := fun e => s'.walk e = s'.walk t)
    (fun id _ hvalue heq => (hs'.walk_var (h.types id _ hvalue)).symm.trans heq) rfl

section Values

variable {id j : VarId} {t : Term} {u : UnitTerm}

@[simp] theorem typeValue?_freshType : s.freshType.2.typeValue? j = s.typeValue? j := by
  simp only [typeValue?, freshType, Array.getElem?_push]
  split
  · rename_i heq
    simp [heq]
  · rfl

@[simp] theorem unitValue?_freshUnit : s.freshUnit.2.unitValue? j = s.unitValue? j := by
  simp only [unitValue?, freshUnit, Array.getElem?_push]
  split
  · rename_i heq
    simp [heq]
  · rfl

/-- What follows an assignment, unless the variable is made its own value. -/
theorem assignType_eq (h : t ≠ .var id) :
    s.assignType id t = { s with types := s.types.setIfInBounds id (some t) } := by
  unfold assignType
  split
  · rename_i other
    have hne : other ≠ id := fun heq => h (congrArg Term.var heq)
    rw [if_neg hne]
  · rfl

theorem typeValue?_assignType (h : t ≠ .var id) (hid : id < s.types.size) :
    (s.assignType id t).typeValue? j = if j = id then some t else s.typeValue? j := by
  rw [assignType_eq h]
  simp only [typeValue?, Array.getElem?_setIfInBounds, hid, if_true, eq_comm (a := id)]
  split <;> rfl

theorem typeValue?_of_assignType {value : Term} (h : (s.assignType id t).typeValue? j = some value) :
    s.typeValue? j = some value ∨ value = t := by
  by_cases hne : t = .var id
  · have hsame : s.assignType id t = s := by simp [assignType, hne]
    rw [hsame] at h
    exact .inl h
  · by_cases hid : id < s.types.size
    · rw [typeValue?_assignType hne hid] at h
      split at h
      · cases h
        exact .inr rfl
      · exact .inl h
    · rw [assignType_eq hne, Array.setIfInBounds_eq_of_size_le (Nat.le_of_not_lt hid)] at h
      exact .inl h

theorem unitValue?_assignUnit (hid : id < s.units.size) :
    (s.assignUnit id u).unitValue? j = if j = id then some u else s.unitValue? j := by
  simp only [assignUnit, unitValue?, Array.getElem?_setIfInBounds, hid, if_true, eq_comm (a := id)]
  split <;> rfl

end Values

namespace WellFormed

theorem empty : Store.empty.WellFormed where
  typesBelow id t h := by simp [typeValue?, Store.empty] at h
  unitsBelow id u h := by simp [unitValue?, Store.empty] at h
  typesAcyclic i hi := by
    obtain ⟨j, ⟨t, ht, -⟩, -⟩ := Relation.TransGen.head'_iff.1 hi
    simp [typeValue?, Store.empty] at ht
  unitsAcyclic i hi := by
    obtain ⟨j, ⟨u, hu, -⟩, -⟩ := Relation.TransGen.head'_iff.1 hi
    simp [unitValue?, Store.empty] at hu

theorem freshType (hs : s.WellFormed) : s.freshType.2.WellFormed where
  typesBelow id t h := by
    rw [typeValue?_freshType] at h
    exact (hs.typesBelow id t h).mono (by simp [Store.freshType]) (Nat.le_refl _)
  unitsBelow := hs.unitsBelow
  typesAcyclic := hs.typesAcyclic.mono fun i j ⟨t, ht, hj⟩ => ⟨t, by rwa [typeValue?_freshType] at ht, hj⟩
  unitsAcyclic := hs.unitsAcyclic

theorem freshUnit (hs : s.WellFormed) : s.freshUnit.2.WellFormed where
  typesBelow id t h := (hs.typesBelow id t h).mono (Nat.le_refl _) (by simp [Store.freshUnit])
  unitsBelow id u h := by
    rw [unitValue?_freshUnit] at h
    exact (hs.unitsBelow id u h).mono (by simp [Store.freshUnit])
  typesAcyclic := hs.typesAcyclic
  unitsAcyclic := hs.unitsAcyclic.mono fun i j ⟨u, hu, hj⟩ => ⟨u, by rwa [unitValue?_freshUnit] at hu, hj⟩

variable {id : VarId} {t : Term} {u v : UnitTerm}

/-- A term in which a variable does not occur is not that variable. -/
theorem ne_var_of_occurs (hs : s.WellFormed) (h : s.occurs id t = false) : t ≠ .var id := by
  rintro rfl
  have hoccurs : s.occurs id (.var id) = true := hs.occurs_iff.2 ⟨id, .here, .refl⟩
  rw [hoccurs] at h
  cases h

/-- A variable can be given a value in which it does not occur. -/
theorem assignType (hs : s.WellFormed) (hid : id < s.types.size) (ht : t.Below s.types.size s.units.size)
    (hoccurs : s.occurs id t = false) : (s.assignType id t).WellFormed := by
  have hne := hs.ne_var_of_occurs hoccurs
  have hsize : (s.assignType id t).types.size = s.types.size := by simp [assignType_eq hne]
  have hunits : (s.assignType id t).units = s.units := by simp [assignType_eq hne]
  have hvalue := fun j => typeValue?_assignType (s := s) (j := j) hne hid
  have hnew : ∀ j, t.Mentions j → ¬ ReflTransGen s.TypeEdge j id := by
    intro j hj hpath
    rw [hs.occurs_iff.2 ⟨j, hj, hpath⟩] at hoccurs
    cases hoccurs
  refine ⟨fun j value h => ?_, fun j value h => ?_, ?_, ?_⟩
  · rw [hvalue] at h
    rw [hsize, hunits]
    split at h
    · cases h
      exact ht
    · exact hs.typesBelow j value h
  · rw [unitValue?, hunits] at h
    rw [hunits]
    exact hs.unitsBelow j value h
  · refine (hs.typesAcyclic.extend hnew).mono ?_
    rintro i j ⟨value, h, hj⟩
    rw [hvalue] at h
    split at h
    · rename_i hi
      cases h
      exact .inr ⟨hi, hj⟩
    · exact .inl ⟨value, h, hj⟩
  · refine hs.unitsAcyclic.mono ?_
    rintro i j ⟨value, h, hj⟩
    rw [unitValue?, hunits] at h
    exact ⟨value, h, hj⟩

/-- A variable can be given a value that mentions other variables without a value only. -/
theorem assignUnit (hs : s.WellFormed) (hid : id < s.units.size) (hu : UnitTerm.Below s.units.size u)
    (hopen : ∀ j, Atom.var j ∈ u.atoms → s.unitValue? j = none ∧ j ≠ id) : (s.assignUnit id u).WellFormed := by
  have hsize : (s.assignUnit id u).units.size = s.units.size := by simp [Store.assignUnit]
  have hvalue := fun j => unitValue?_assignUnit (s := s) (j := j) (u := u) hid
  have hnew : ∀ j, Atom.var j ∈ u.atoms → ¬ ReflTransGen s.UnitEdge j id := by
    intro j hj hpath
    obtain ⟨hnone, hne⟩ := hopen j hj
    rcases hpath.cases_head with heq | ⟨k, ⟨w, hw, -⟩, -⟩
    · exact hne heq
    · rw [hnone] at hw
      cases hw
  refine ⟨fun j value h => ?_, fun j value h => ?_, hs.typesAcyclic, ?_⟩
  · rw [hsize]
    exact hs.typesBelow j value h
  · rw [hvalue] at h
    rw [hsize]
    split at h
    · cases h
      exact hu
    · exact hs.unitsBelow j value h
  · refine (hs.unitsAcyclic.extend hnew).mono fun i j ⟨value, h, hj⟩ => ?_
    rw [hvalue] at h
    split at h
    · rename_i hi
      cases h
      exact .inr ⟨hi, hj⟩
    · exact .inl ⟨value, h, hj⟩

end WellFormed

section Extends

variable {id : VarId} {t : Term} {u v : UnitTerm}

theorem extends_freshType : s.Extends s.freshType.2 :=
  ⟨fun _ _ h => by rwa [typeValue?_freshType], fun _ _ h => h, by simp [freshType], Nat.le_refl _⟩

theorem extends_freshUnit : s.Extends s.freshUnit.2 :=
  ⟨fun _ _ h => h, fun _ _ h => by rwa [unitValue?_freshUnit], Nat.le_refl _, by simp [freshUnit]⟩

/-- Filling an empty slot keeps all values. -/
theorem extends_assignType (hne : t ≠ .var id) (hid : id < s.types.size) (hnone : s.typeValue? id = none) :
    s.Extends (s.assignType id t) := by
  refine ⟨fun j value h => ?_, fun j value h => ?_, ?_, ?_⟩
  · rw [typeValue?_assignType hne hid, if_neg ?_]
    · exact h
    · rintro rfl
      rw [hnone] at h
      cases h
  · rw [assignType_eq hne]
    exact h
  · simp [assignType_eq hne]
  · simp [assignType_eq hne]

theorem extends_assignUnit (hid : id < s.units.size) (hnone : s.unitValue? id = none) :
    s.Extends (s.assignUnit id u) := by
  refine ⟨fun j value h => h, fun j value h => ?_, Nat.le_refl _, by simp [assignUnit]⟩
  rw [unitValue?_assignUnit hid, if_neg ?_]
  · exact h
  · rintro rfl
    rw [hnone] at h
    cases h

/-- An equation between units holds already, or it is solved for a variable. -/
theorem unifyUnits_eq_ok_iff :
    s.unifyUnits u v = .ok s' ↔ ∃ q, (s.resolve u).divide? (s.resolve v) = some q ∧
      (q.isOne = true ∧ s' = s ∨
        q.isOne = false ∧ ∃ id value, UnitTerm.solve? q = some (id, value) ∧ s' = s.assignUnit id value) := by
  simp only [unifyUnits]
  cases hq : (s.resolve u).divide? (s.resolve v) with
  | none => simp
  | some q =>
      simp only [Option.some.injEq, exists_eq_left']
      cases hone : q.isOne with
      | true =>
          simp only [if_true, Except.ok.injEq, true_and, Bool.true_eq_false, false_and, or_false]
          exact eq_comm
      | false =>
          simp only [Bool.false_eq_true, if_false, false_and, true_and, false_or]
          cases hsolve : UnitTerm.solve? q with
          | none => simp
          | some solution =>
              constructor
              · intro h
                cases h
                exact ⟨solution.1, solution.2, rfl, rfl⟩
              · rintro ⟨id, value, heq, rfl⟩
                cases heq
                rfl

theorem types_of_unifyUnits (h : s.unifyUnits u v = .ok s') : s'.types = s.types := by
  obtain ⟨q, -, ⟨-, rfl⟩ | ⟨-, id, value, -, rfl⟩⟩ := unifyUnits_eq_ok_iff.1 h
  · rfl
  · rfl

/-- What is assigned when an equation between units is solved: the variable and the variables in its value
have no values, and the variable is not in its value. -/
theorem WellFormed.open_of_solve? (hs : s.WellFormed) (hu : UnitTerm.Below s.units.size u)
    (hv : UnitTerm.Below s.units.size v) {q : UnitTerm} (hq : (s.resolve u).divide? (s.resolve v) = some q)
    {value : UnitTerm} (hsolve : UnitTerm.solve? q = some (id, value)) :
    id < s.units.size ∧ s.unitValue? id = none ∧
      ∀ j, Atom.var j ∈ value.atoms → j < s.units.size ∧ s.unitValue? j = none ∧ j ≠ id := by
  have hopen : ∀ j, Atom.var j ∈ q.atoms → j < s.units.size ∧ s.unitValue? j = none := by
    intro j hj
    rcases Product.mem_atoms_of_divide? hq hj with hj | hj
    · exact ⟨hs.resolve_below hu j hj, hs.unitValue?_of_mem_resolve hj⟩
    · exact ⟨hs.resolve_below hv j hj, hs.unitValue?_of_mem_resolve hj⟩
  obtain ⟨hid, hvalue⟩ := UnitTerm.of_solve? hsolve
  refine ⟨(hopen id hid).1, (hopen id hid).2, fun j hj => ?_⟩
  obtain ⟨hmem, hne⟩ := hvalue _ hj
  exact ⟨(hopen j hmem).1, (hopen j hmem).2, fun heq => hne (congrArg Atom.var heq)⟩

theorem WellFormed.unifyUnits (hs : s.WellFormed) (hu : UnitTerm.Below s.units.size u)
    (hv : UnitTerm.Below s.units.size v) (h : s.unifyUnits u v = .ok s') : s'.WellFormed ∧ s.Extends s' := by
  obtain ⟨q, hq, ⟨-, rfl⟩ | ⟨-, id, value, hsolve, rfl⟩⟩ := unifyUnits_eq_ok_iff.1 h
  · exact ⟨hs, .refl s'⟩
  · obtain ⟨hid, hnone, hvalue⟩ := hs.open_of_solve? hu hv hq hsolve
    exact ⟨hs.assignUnit hid (fun j hj => (hvalue j hj).1) fun j hj => (hvalue j hj).2,
      extends_assignUnit hid hnone⟩

end Extends

end Store

end Tabula
