import Tabula.Proofs.StoreChanges
import Tabula.Proofs.UnifySteps

/-!
# What every run of operations keeps

A store begins empty and is changed by new variables, by unification and by equations between units.  As long
as these are about its own variables, it stays well formed, and a variable that has a value keeps it for the
rest of the run.  This holds however an operation ends: an attempt that fails leaves the values that it has
given before, and these too are kept.

Nothing is assumed about the terms apart from the variables they mention.
-/

namespace Tabula

namespace Store

variable {s : Store}

theorem WellFormed.walk_below (hs : s.WellFormed) {t : Term} (ht : t.Below s.types.size s.units.size) :
    (s.walk t).Below s.types.size s.units.size :=
  walk_of (fun id t hvalue _ => hs.typesBelow id t hvalue) ht

/-- A value is demanded only of a variable of the store that has none. -/
theorem WellFormed.of_demand_value (hs : s.WellFormed) {e f t : Term} {id : VarId}
    (he : e.Below s.types.size s.units.size) (hf : f.Below s.types.size s.units.size)
    (h : (s.walk e).demand (s.walk f) = .value id t) :
    id < s.types.size ∧ s.typeValue? id = none ∧ t.Below s.types.size s.units.size := by
  have he := hs.walk_below he
  have hf := hs.walk_below hf
  rcases Term.demand_value_cases h with ⟨hvar, rfl⟩ | ⟨hvar, rfl⟩
  · exact ⟨he.node id hvar, hs.typeValue?_of_walk hvar, hf⟩
  · exact ⟨hf.node id hvar, hs.typeValue?_of_walk hvar, he⟩

end Store

namespace Pending

/-- The store is well formed, and the equations are about its variables. -/
structure WellFormed (w : Pending) : Prop where
  store : w.store.WellFormed
  equations : ∀ q ∈ w.equations, q.All (Term.Below w.store.types.size w.store.units.size)
    (UnitTerm.Below w.store.units.size)

theorem WellFormed.mono {qs : List Equation} {s s' : Store} (hs : s'.WellFormed) (h : s.Extends s')
    (hqs : ∀ q ∈ qs, q.All (Term.Below s.types.size s.units.size) (UnitTerm.Below s.units.size)) :
    WellFormed ⟨qs, s'⟩ := by
  refine ⟨hs, fun q hq => ?_⟩
  have hall := hqs q hq
  exact hall.imp (fun _ _ h' => ⟨h'.1.mono h.typesSize h.unitsSize, h'.2.mono h.typesSize h.unitsSize⟩)
    fun _ _ h' => ⟨h'.1.mono h.unitsSize, h'.2.mono h.unitsSize⟩

/-- A step keeps the store well formed and fills at most an empty slot. -/
theorem Step.wellFormed {w w' : Pending} (h : Step w w') (hw : w.WellFormed) :
    w'.WellFormed ∧ w.store.Extends w'.store := by
  obtain ⟨hs, hequations⟩ := hw
  cases h with
  | parts hdemand =>
      obtain ⟨⟨he, hf⟩, hrest⟩ := List.forall_mem_cons.1 hequations
      have hqs := Term.demand_equations_all (hs.walk_below he) (hs.walk_below hf) hdemand
      exact ⟨⟨hs, List.forall_mem_append.2 ⟨hqs, hrest⟩⟩, .refl _⟩
  | value hdemand hoccurs =>
      obtain ⟨⟨he, hf⟩, hrest⟩ := List.forall_mem_cons.1 hequations
      obtain ⟨hid, hnone, ht⟩ := hs.of_demand_value he hf hdemand
      have hextends := Store.extends_assignType (hs.ne_var_of_occurs hoccurs) hid hnone
      exact ⟨.mono (hs.assignType hid ht hoccurs) hextends hrest, hextends⟩
  | units hunits =>
      obtain ⟨⟨hu, hv⟩, hrest⟩ := List.forall_mem_cons.1 hequations
      obtain ⟨hs', hextends⟩ := hs.unifyUnits hu hv hunits
      exact ⟨.mono hs' hextends hrest, hextends⟩

section Everywhere

variable {P : Term → Prop} {Q : UnitTerm → Prop}

/-- What holds everywhere in the values of the store and in the equations. -/
structure Everywhere (P : Term → Prop) (Q : UnitTerm → Prop) (w : Pending) : Prop where
  store : ∀ id t, w.store.typeValue? id = some t → t.Everywhere P Q
  equations : ∀ q ∈ w.equations, q.All (Term.Everywhere P Q) Q

/-- A step brings in no new parts of terms. -/
theorem Step.everywhere {w w' : Pending} (h : Step w w') (hw : w.Everywhere P Q) : w'.Everywhere P Q := by
  obtain ⟨hs, hequations⟩ := hw
  have hwalk : ∀ {t : Term}, t.Everywhere P Q → (w.store.walk t).Everywhere P Q := fun ht =>
    Store.walk_of (fun id t hvalue _ => hs id t hvalue) ht
  cases h with
  | parts hdemand =>
      obtain ⟨⟨he, hf⟩, hrest⟩ := List.forall_mem_cons.1 hequations
      have hqs := Term.demand_equations_all (hwalk he) (hwalk hf) hdemand
      exact ⟨hs, List.forall_mem_append.2 ⟨hqs, hrest⟩⟩
  | value hdemand hoccurs =>
      obtain ⟨⟨he, hf⟩, hrest⟩ := List.forall_mem_cons.1 hequations
      refine ⟨fun j value hvalue => ?_, hrest⟩
      rcases Store.typeValue?_of_assignType hvalue with hvalue | rfl
      · exact hs j value hvalue
      · rcases Term.demand_value_cases hdemand with ⟨-, rfl⟩ | ⟨-, rfl⟩
        · exact hwalk hf
        · exact hwalk he
  | units hunits =>
      obtain ⟨-, hrest⟩ := List.forall_mem_cons.1 hequations
      refine ⟨fun j value hvalue => hs j value ?_, hrest⟩
      rwa [Store.typeValue?, Store.types_of_unifyUnits hunits] at hvalue

theorem Leads.everywhere {w w' : Pending} (h : w.Leads w') (hw : w.Everywhere P Q) : w'.Everywhere P Q := by
  induction h with
  | refl => exact hw
  | tail _ hstep ih => exact hstep.everywhere ih

end Everywhere

theorem Leads.wellFormed {w w' : Pending} (h : w.Leads w') (hw : w.WellFormed) :
    w'.WellFormed ∧ w.store.Extends w'.store := by
  induction h with
  | refl => exact ⟨hw, .refl _⟩
  | tail _ hstep ih =>
      obtain ⟨hw', hextends⟩ := hstep.wellFormed ih.1
      exact ⟨hw', ih.2.trans hextends⟩

end Pending

/-- A change of a store. -/
inductive Operation where
  | freshType
  | freshUnit
  | unify (expected found : Term)
  | unifyUnits (expected found : UnitTerm)

/-- The operation is about variables of the store. -/
def Operation.Allowed (s : Store) : Operation → Prop
  | .freshType | .freshUnit => True
  | .unify e f => e.Below s.types.size s.units.size ∧ f.Below s.types.size s.units.size
  | .unifyUnits u v => UnitTerm.Below s.units.size u ∧ UnitTerm.Below s.units.size v

namespace Store

variable {s : Store}

/-- The store after an operation, whether it succeeds or not. -/
def perform (s : Store) : Operation → Store
  | .freshType => s.freshType.2
  | .freshUnit => s.freshUnit.2
  | .unify e f => (s.unify e f).store
  | .unifyUnits u v =>
      match s.unifyUnits u v with
      | .ok s' => s'
      | .error _ => s

/-- The store after a sequence of operations. -/
def run (s : Store) (ops : List Operation) : Store :=
  ops.foldl perform s

/-- Each operation is about variables that are there when it is its turn. -/
def Admits (s : Store) : List Operation → Prop
  | [] => True
  | op :: ops => op.Allowed s ∧ (s.perform op).Admits ops

/-- The store comes about by operations. -/
def Reachable (s : Store) : Prop :=
  ∃ ops, Store.empty.Admits ops ∧ Store.empty.run ops = s

theorem WellFormed.perform (hs : s.WellFormed) {op : Operation} (hop : op.Allowed s) :
    (s.perform op).WellFormed ∧ s.Extends (s.perform op) := by
  cases op with
  | freshType => exact ⟨hs.freshType, extends_freshType⟩
  | freshUnit => exact ⟨hs.freshUnit, extends_freshUnit⟩
  | unify e f =>
      obtain ⟨qs, hleads⟩ := Pending.exists_leads_unify s e f
      have hw : Pending.WellFormed ⟨[.types none e f], s⟩ := ⟨hs, List.forall_mem_singleton.2 hop⟩
      obtain ⟨hw', hextends⟩ := hleads.wellFormed hw
      exact ⟨hw'.store, hextends⟩
  | unifyUnits u v =>
      cases hunits : s.unifyUnits u v with
      | ok s' =>
          have hperform : s.perform (.unifyUnits u v) = s' := by simp only [Store.perform, hunits]
          rw [hperform]
          exact hs.unifyUnits hop.1 hop.2 hunits
      | error e =>
          have hperform : s.perform (.unifyUnits u v) = s := by simp only [Store.perform, hunits]
          rw [hperform]
          exact ⟨hs, .refl s⟩

theorem WellFormed.run (hs : s.WellFormed) {ops : List Operation} (hops : s.Admits ops) :
    (s.run ops).WellFormed ∧ s.Extends (s.run ops) := by
  induction ops generalizing s with
  | nil => exact ⟨hs, .refl s⟩
  | cons op ops ih =>
      obtain ⟨hs', hextends⟩ := hs.perform hops.1
      obtain ⟨hrun, hextends'⟩ := ih hs' hops.2
      exact ⟨hrun, hextends.trans hextends'⟩

theorem run_cons (s : Store) (op : Operation) (ops : List Operation) : s.run (op :: ops) = (s.perform op).run ops :=
  rfl

theorem run_append (s : Store) (ops more : List Operation) : s.run (ops ++ more) = (s.run ops).run more :=
  List.foldl_append

theorem admits_append {ops more : List Operation} :
    s.Admits (ops ++ more) ↔ s.Admits ops ∧ (s.run ops).Admits more := by
  induction ops generalizing s with
  | nil => exact iff_of_eq (true_and _).symm
  | cons op ops ih => exact (and_congr_right fun _ => ih).trans and_assoc.symm

theorem reachable_empty : Store.empty.Reachable :=
  ⟨[], trivial, rfl⟩

theorem Reachable.perform (hs : s.Reachable) (op : Operation) (hop : op.Allowed s) : (s.perform op).Reachable := by
  obtain ⟨ops, hops, rfl⟩ := hs
  exact ⟨ops ++ [op], admits_append.2 ⟨hops, hop, trivial⟩, run_append .empty ops [op]⟩

theorem Reachable.wellFormed (h : s.Reachable) : s.WellFormed := by
  obtain ⟨ops, hops, rfl⟩ := h
  exact (WellFormed.empty.run hops).1

/-- At every point of a run from the empty store, the store is well formed, and what it holds is held at
every later point. -/
theorem wellFormed_and_extends_of_admits {ops more : List Operation} (h : Store.empty.Admits (ops ++ more)) :
    (Store.empty.run ops).WellFormed ∧ (Store.empty.run ops).Extends (Store.empty.run (ops ++ more)) := by
  obtain ⟨hops, hmore⟩ := admits_append.1 h
  have hs := (WellFormed.empty.run hops).1
  exact ⟨hs, run_append .empty ops more ▸ (hs.run hmore).2⟩

/-- A failed attempt comes first: it gives the variable `0` a value before it meets two different types.  Then
a unit variable is solved for, and the variable `1` gets a value that mentions `0`. -/
theorem wellFormed_and_extends_after_failure :
    let ops : List Operation := [.freshType, .freshType, .freshUnit,
      .unify (.function [.var 0] (.primitive .text)) (.function [.array (.number .one)] (.primitive .date))]
    let more : List Operation := [.unifyUnits (.single (.var 0)) (.single (.unit ⟨"m", "metre"⟩)),
      .unify (.var 1) (.array (.var 0))]
    (Store.empty.run ops).typeValue? 0 = some (.array (.number .one)) ∧
      (Store.empty.run ops).WellFormed ∧ (Store.empty.run ops).Extends (Store.empty.run (ops ++ more)) := by
  intro ops more
  refine ⟨rfl, wellFormed_and_extends_of_admits ⟨trivial, trivial, trivial, ?_, ?_, ?_, trivial⟩⟩
  · have hsize : ((Store.empty.perform .freshType).perform .freshType).perform .freshUnit =
        ⟨#[none, none], #[none]⟩ := rfl
    rw [hsize]
    simp [Operation.Allowed, Term.Below, UnitTerm.Below, Product.atoms, Product.one]
  · have hsize : (Store.empty.run ops).units.size = 1 := rfl
    show UnitTerm.Below (Store.empty.run ops).units.size _ ∧ UnitTerm.Below (Store.empty.run ops).units.size _
    rw [hsize]
    simp [UnitTerm.Below, Product.atoms, Product.single]
  · have htypes : (Store.empty.run (ops ++ more.take 1)).types.size = 2 := rfl
    have hunits : (Store.empty.run (ops ++ more.take 1)).units.size = 1 := rfl
    show Operation.Allowed (Store.empty.run (ops ++ more.take 1)) _
    simp [Operation.Allowed, Term.Below, htypes, hunits]

end Store

end Tabula
