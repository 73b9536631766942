import Tabula.Proofs.FollowingValues
import Tabula.Proofs.StoreInvariant

/-!
# Stores that differ in the direction of their chains

When two variables are made equal, either of them can get the other one as its value.  The stores are then not the
same, and a chain of variables ends in one of the two or in the other; but nothing that is done with a store shows
the difference, apart from the variables that are named in errors.

Two stores are interchangeable if a term that was followed in one of them can be followed on in the other, and ends
there where it would have ended anyway.  All ends that are no variables are then the same.
-/

namespace Tabula

open Relation (ReflTransGen)

namespace Store

variable {s s' s₁ s₁' : Store} {e f t x y : Term} {id : VarId}

/-- The stores make the same terms equal.  They may differ in which of several equal variables is the end of a
chain. -/
structure Interchangeable (s s' : Store) : Prop where
  units : s.units = s'.units
  size : s.types.size = s'.types.size
  forward : ∀ t, s'.walk (s.walk t) = s'.walk t
  backward : ∀ t, s.walk (s'.walk t) = s.walk t

theorem WellFormed.interchangeable_self (hs : s.WellFormed) : s.Interchangeable s :=
  ⟨rfl, rfl, (Extends.refl s).walk_walk hs, (Extends.refl s).walk_walk hs⟩

namespace Interchangeable

theorem symm (h : s.Interchangeable s') : s'.Interchangeable s :=
  ⟨h.units.symm, h.size.symm, h.backward, h.forward⟩

theorem walk_eq_walk (h : s.Interchangeable s') (heq : s.walk x = s.walk y) : s'.walk x = s'.walk y := by
  rw [← h.forward x, heq, h.forward y]

/-- An end that is no variable is the same in both stores. -/
theorem walk_eq (h : s.Interchangeable s') (hne : ∀ id, s.walk t ≠ .var id) : s'.walk t = s.walk t :=
  (h.forward t).symm.trans (walk_eq_self fun id heq => absurd heq (hne id))

theorem exists_var (h : s.Interchangeable s') (hvar : s.walk t = .var id) : ∃ id', s'.walk t = .var id' := by
  by_contra hne
  have heq := h.symm.walk_eq fun id' hid' => hne ⟨id', hid'⟩
  exact hne ⟨id, heq.symm.trans hvar⟩

end Interchangeable

section Merging

/-- The store `s₁` is the store `s` with the ends of two terms made equal, one of which takes the place of the other. -/
structure Merges (s s₁ : Store) (e f : Term) : Prop where
  units : s₁.units = s.units
  size : s₁.types.size = s.types.size
  later : ∀ x, s₁.walk (s.walk x) = s₁.walk x
  same : s₁.walk e = s₁.walk f
  place : s₁.walk e = s.walk e ∨ s₁.walk e = s.walk f
  others : ∀ x, s₁.walk x = s.walk x ∨ s.walk x = s.walk e ∨ s.walk x = s.walk f

theorem Merges.symm (h : s.Merges s₁ e f) : s.Merges s₁ f e where
  units := h.units
  size := h.size
  later := h.later
  same := h.same.symm
  place := h.same ▸ h.place.symm
  others x := (h.others x).imp_right Or.symm

/-- What is followed in the one merged store can be followed on in the other. -/
theorem Merges.walk_walk (h : s.Merges s₁ e f) (h' : s'.Merges s₁' e f) (hforward : ∀ t, s'.walk (s.walk t) = s'.walk t)
    (x : Term) : s₁'.walk (s₁.walk x) = s₁'.walk x := by
  have hlater : ∀ y, s₁'.walk (s.walk y) = s₁'.walk y := fun y => by
    rw [← h'.later (s.walk y), hforward, h'.later]
  have hplace : s₁'.walk (s₁.walk e) = s₁'.walk e := by
    rcases h.place with heq | heq
    · rw [heq, hlater]
    · rw [heq, hlater, h'.same]
  -- A term that ends where `e` does is led to the same end as `e` in both merged stores.
  have hclass : ∀ y, s.walk x = s.walk y → s₁.walk x = s₁.walk y ∧ s₁'.walk x = s₁'.walk y := fun y heq => by
    rw [← h.later x, ← hlater x, heq, h.later, hlater]
    exact ⟨rfl, rfl⟩
  rcases h.others x with heq | heq | heq
  · rw [heq, hlater]
  · obtain ⟨hx, hx'⟩ := hclass e heq
    rw [hx, hx', hplace]
  · obtain ⟨hx, hx'⟩ := hclass f heq
    rw [hx, hx', ← h.same, ← h'.same, hplace]

theorem Interchangeable.merges (hs : s.Interchangeable s') (h : s.Merges s₁ e f) (h' : s'.Merges s₁' e f) :
    s₁.Interchangeable s₁' where
  units := by rw [h.units, h'.units, hs.units]
  size := by rw [h.size, h'.size, hs.size]
  forward := h.walk_walk h' hs.forward
  backward := h'.walk_walk h hs.backward

/-- The value that two terms demand for a variable makes their ends equal. -/
theorem WellFormed.merges_assignType (hs : s.WellFormed) (he : e.Below s.types.size s.units.size)
    (hf : f.Below s.types.size s.units.size) (hdemand : (s.walk e).demand (s.walk f) = .value id t)
    (hoccurs : s.occurs id t = false) : s.Merges (s.assignType id t) e f := by
  obtain ⟨hid, hnone, htbelow⟩ := hs.of_demand_value he hf hdemand
  have hne := hs.ne_var_of_occurs hoccurs
  have hs₁ := hs.assignType hid htbelow hoccurs
  have hlater := (extends_assignType hne hid hnone).walk_walk hs₁
  -- Only the variable that gets the value is no end any more.
  have hend : ∀ x, s.walk x ≠ .var id → (s.assignType id t).walk (s.walk x) = s.walk x := by
    intro x hx
    refine walk_eq_self fun j hj => ?_
    rw [typeValue?_assignType hne hid, if_neg fun (heq : j = id) => hx (heq ▸ hj)]
    exact hs.typeValue?_of_walk hj
  have hmerges : ∀ e f, s.walk e = .var id → s.walk f = t → s.Merges (s.assignType id t) e f := by
    intro e f he hf
    have hvalue : (s.assignType id t).walk e = t := by
      rw [← hlater e, he, hs₁.walk_var (by rw [typeValue?_assignType hne hid, if_pos rfl])]
      have hself := hend f (hf ▸ hne)
      rwa [hf] at hself
    have hvalue' : (s.assignType id t).walk f = t := by
      rw [← hlater f, hend f (hf ▸ hne), hf]
    refine ⟨by rw [assignType_eq hne], by simp [assignType_eq hne], hlater, hvalue.trans hvalue'.symm,
      .inr (hvalue.trans hf.symm), fun x => ?_⟩
    by_cases hx : s.walk x = .var id
    · exact .inr (.inl (hx.trans he.symm))
    · exact .inl (by rw [← hlater x, hend x hx])
  rcases Term.demand_value_cases hdemand with ⟨he, hf⟩ | ⟨hf, he⟩
  · exact hmerges e f he hf
  · exact (hmerges f e hf he).symm

end Merging

section Occurrences

/-- The end of `e` is found in the term when values are followed. -/
inductive Reaches (s : Store) (e : Term) : Term → Prop where
  | here {x : Term} (h : s.walk x = s.walk e) : Reaches s e x
  | inside {x c : Term} (hc : c ∈ (s.walk x).children) (h : Reaches s e c) : Reaches s e x

theorem Reaches.of_walk_eq (h : s.Reaches e x) (heq : s.walk x = s.walk y) : s.Reaches e y := by
  cases h with
  | here h => exact .here (heq ▸ h)
  | inside hc h => exact .inside (heq ▸ hc) h

theorem Reaches.of_mentions {j : VarId} (h : s.Reaches e (.var j)) (hj : x.Mentions j) : s.Reaches e x := by
  induction hj with
  | here => exact h
  | @inside c t hc _ ih =>
      have hself : s.walk t = t := walk_eq_self fun id heq => by
        rw [heq] at hc
        cases hc
      exact .inside (hself.symm ▸ hc) ih

/-- The check for occurrences looks for the end of a chain, so that it does not matter which variable that is. -/
theorem WellFormed.occurs_iff_reaches (hs : s.WellFormed) (he : s.walk e = .var id) :
    s.occurs id x = true ↔ s.Reaches e x := by
  rw [hs.occurs_iff]
  constructor
  · rintro ⟨j, hj, hpath⟩
    refine Reaches.of_mentions ?_ hj
    induction hpath using ReflTransGen.head_induction_on generalizing x with
    | refl =>
        refine .here ?_
        rw [he]
        exact walk_eq_self fun k hk => Term.var.inj hk ▸ hs.typeValue?_of_walk he
    | @head j k hjk _ ih =>
        obtain ⟨value, hvalue, hk⟩ := hjk
        exact ((ih hk).of_mentions hk).of_walk_eq (hs.walk_var hvalue).symm
  · -- What is reached from a value is reached from the variable, so it is reached from the start of the chain.
    have hstart : ∀ x, (∃ j, (s.walk x).Mentions j ∧ ReflTransGen s.TypeEdge j id) →
        ∃ j, x.Mentions j ∧ ReflTransGen s.TypeEdge j id := by
      intro x
      refine walk_of (P := fun y => (∃ j, y.Mentions j ∧ ReflTransGen s.TypeEdge j id) →
        ∃ j, x.Mentions j ∧ ReflTransGen s.TypeEdge j id) (fun i value hvalue hi => ?_) fun h => h
      rintro ⟨j, hj, hpath⟩
      exact hi ⟨i, .here, .head ⟨value, hvalue, hj⟩ hpath⟩
    intro h
    induction h with
    | @here x h => exact hstart x ⟨id, by rw [h, he]; exact .here, .refl⟩
    | @inside x c hc _ ih =>
        obtain ⟨j, hj, hpath⟩ := ih
        exact hstart x ⟨j, .inside hc hj, hpath⟩

theorem Interchangeable.reaches (hs : s.Interchangeable s') (h : s.Reaches e x) : s'.Reaches e x := by
  induction h with
  | here h => exact .here (hs.walk_eq_walk h)
  | @inside x c hc _ ih =>
      refine .inside ?_ ih
      rw [hs.walk_eq fun id heq => by rw [heq] at hc; cases hc]
      exact hc

/-- The end of a chain occurs in the same terms in both stores. -/
theorem Interchangeable.occurs_eq (h : s.Interchangeable s') (hs : s.WellFormed) (hs' : s'.WellFormed) {id' : VarId}
    (he : s.walk e = .var id) (he' : s'.walk e = .var id') (x : Term) : s'.occurs id' x = s.occurs id x := by
  rw [Bool.eq_iff_iff, hs.occurs_iff_reaches he, hs'.occurs_iff_reaches he']
  exact ⟨h.symm.reaches, h.reaches⟩

end Occurrences

section Reading

variable {c : Catalog}

theorem resolveWithin_congr (h : s.units = s'.units) (n : Nat) (u : UnitTerm) :
    s.resolveWithin n u = s'.resolveWithin n u := by
  induction n generalizing u with
  | zero => rfl
  | succ n ih =>
      rw [resolveWithin_succ, resolveWithin_succ]
      refine Product.bind_congr fun a _ => ?_
      cases a with
      | unit w => rfl
      | var id => simp only [factorValue, unitValue?, h, ih]

/-- The values of unit variables are all that matters to a unit. -/
theorem readUnit_congr (h : s.units = s'.units) (u : UnitTerm) : s.readUnit u = s'.readUnit u := by
  simp only [readUnit, resolve, h, resolveWithin_congr h]

theorem Interchangeable.readTypeWithin_atMost (h : s.Interchangeable s') (n : Nat) (t : Term) :
    AtMost (s.readTypeWithin c n t) (s'.readTypeWithin c n t) := by
  induction n generalizing t with
  | zero => exact .of_error
  | succ n ih =>
      refine Term.toGround_atMost_self (fun id _ => ?_) fun u _ => ?_
      · have hroot : s.root id = s.walk (.var id) := rfl
        have hroot' : s'.root id = s'.walk (.var id) := rfl
        rw [hroot, hroot']
        split
        · exact .of_error
        · rename_i hne
          rw [h.walk_eq hne]
          split
          · rename_i last hlast
            exact absurd hlast (hne last)
          · exact ih _
      · rw [readUnit_congr h.units]
        exact .refl _

/-- Interchangeable stores read every term back alike. -/
theorem Interchangeable.readType (h : s.Interchangeable s') (t : Term) :
    SameResult (s.readType c t) (s'.readType c t) := by
  rw [Store.readType, Store.readType, h.size]
  exact ⟨h.readTypeWithin_atMost _ t, h.symm.readTypeWithin_atMost _ t⟩

end Reading

end Store

end Tabula
