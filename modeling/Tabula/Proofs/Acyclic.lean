import Mathlib.Data.Finset.Card
import Mathlib.Logic.Relation
import Mathlib.Order.WellFounded

/-!
# Relations without cycles

The variables of a store refer to each other through their values.  What is needed about such a relation is
independent of stores: if it has no cycle, the vertices can be ranked below their number so that every edge
goes down, a function that is specified along the edges exists, and new edges from one vertex make no cycle
unless one of their ends leads back to it.
-/

namespace Tabula

open Relation (TransGen ReflTransGen)

variable {edge : Nat → Nat → Prop}

/-- No vertex is reached from itself. -/
def Acyclic (edge : Nat → Nat → Prop) : Prop :=
  ∀ i, ¬ TransGen edge i i

namespace Acyclic

theorem mono (h : Acyclic edge) {edge' : Nat → Nat → Prop} (hedge : ∀ i j, edge' i j → edge i j) :
    Acyclic edge' :=
  fun i hi => h i (hi.lift (fun i => i) hedge)

/-- Every edge goes down in rank, and the ranks of `n` vertices are below `n`. -/
theorem exists_rank (h : Acyclic edge) {n : Nat} (hn : ∀ i j, edge i j → j < n) :
    ∃ rank : Nat → Nat, (∀ i j, edge i j → rank j < rank i) ∧ ∀ i < n, rank i < n := by
  classical
  -- The rank of a vertex counts the vertices that are reached from it.
  let reached (i : Nat) : Finset Nat := (Finset.range n).filter fun j => TransGen edge i j
  refine ⟨fun i => (reached i).card, fun i j hij => ?_, fun i hi => ?_⟩
  · refine Finset.card_lt_card ⟨fun k hk => ?_, fun hsub => ?_⟩
    · obtain ⟨hkn, hjk⟩ := Finset.mem_filter.1 hk
      exact Finset.mem_filter.2 ⟨hkn, .head hij hjk⟩
    · have hj : j ∈ reached i := Finset.mem_filter.2 ⟨Finset.mem_range.2 (hn i j hij), .single hij⟩
      exact h j (Finset.mem_filter.1 (hsub hj)).2
  · have hsub : reached i ⊂ Finset.range n := by
      refine ⟨Finset.filter_subset _ _, fun hsub => ?_⟩
      exact h i (Finset.mem_filter.1 (hsub (Finset.mem_range.2 hi))).2
    simpa using Finset.card_lt_card hsub

theorem wellFounded (h : Acyclic edge) {n : Nat} (hn : ∀ i j, edge i j → j < n) :
    WellFounded fun j i => edge i j := by
  obtain ⟨rank, hrank, -⟩ := h.exists_rank hn
  exact Subrelation.wf (fun hij => hrank _ _ hij) (measure rank).wf

/-- A function whose value at a vertex is given by its values at the ends of the edges from there. -/
theorem exists_fixpoint {X : Type} [Nonempty X] (h : Acyclic edge) {n : Nat} (hn : ∀ i j, edge i j → j < n)
    (F : Nat → (Nat → X) → X) (hF : ∀ i f g, (∀ j, edge i j → f j = g j) → F i f = F i g) :
    ∃ f : Nat → X, ∀ i, f i = F i f := by
  classical
  have hwf := h.wellFounded hn
  let f : Nat → X := hwf.fix fun i rec => F i fun j =>
    if hij : edge i j then rec j hij else Classical.arbitrary X
  refine ⟨f, fun i => ?_⟩
  rw [show f i = _ from hwf.fix_eq _ i]
  refine hF i _ _ fun j hij => ?_
  rw [dif_pos hij]

/-- New edges from one vertex make no cycle if their ends do not lead back to it. -/
theorem extend (h : Acyclic edge) {id : Nat} {targets : Nat → Prop}
    (htargets : ∀ j, targets j → ¬ ReflTransGen edge j id) :
    Acyclic fun i j => edge i j ∨ (i = id ∧ targets j) := by
  let edge' (i j : Nat) : Prop := edge i j ∨ (i = id ∧ targets j)
  have hlift : ∀ {a b}, ReflTransGen edge a b → ReflTransGen edge' a b :=
    fun hab => hab.lift (fun i => i) fun _ _ => .inl
  -- A path from a vertex that does not lead to `id` meets no new edge.
  have hold : ∀ {a b}, ReflTransGen edge' a b → ¬ ReflTransGen edge a id → ReflTransGen edge a b := by
    intro a b hab
    induction hab using ReflTransGen.head_induction_on with
    | refl => exact fun _ => .refl
    | head hstep _ ih =>
        intro hnot
        rcases hstep with hstep | ⟨rfl, -⟩
        · exact .head hstep (ih fun hpath => hnot (.head hstep hpath))
        · exact absurd .refl hnot
  -- A path that is not made of old edges alone leads to `id`, and on from one of the new ends.
  have hsplit : ∀ {a b}, TransGen edge' a b → TransGen edge a b ∨
      ∃ j, targets j ∧ ReflTransGen edge' a id ∧ ReflTransGen edge' j b := by
    intro a b hab
    induction hab with
    | single hstep =>
        rcases hstep with hstep | ⟨rfl, hj⟩
        · exact .inl (.single hstep)
        · exact .inr ⟨_, hj, .refl, .refl⟩
    | tail _ hstep ih =>
        rcases ih with hpath | ⟨j, hj, ha, hb⟩
        · rcases hstep with hstep | ⟨rfl, hj⟩
          · exact .inl (.tail hpath hstep)
          · exact .inr ⟨_, hj, hlift hpath.to_reflTransGen, .refl⟩
        · exact .inr ⟨j, hj, ha, .tail hb hstep⟩
  intro i hi
  rcases hsplit hi with hcycle | ⟨j, hj, hid, hback⟩
  · exact h i hcycle
  · exact htargets j hj (hold (hback.trans hid) (htargets j hj))

end Acyclic

end Tabula
