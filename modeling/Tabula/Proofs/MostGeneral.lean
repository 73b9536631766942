import Tabula.Proofs.LevelBound
import Tabula.Proofs.Substitution
import Tabula.Proofs.UnitValues

/-!
# Unification finds the most general solution

A substitution solves a store if every variable that has a value becomes the same term as its value.  For
terms without unit variables in which all records are complete, `Store.unify` succeeds exactly if some
substitution solves the store and makes the two terms the same, and then the resulting store is solved by all
such substitutions.

The proof follows the pending equations: a step changes neither the store and the equations nor what solves
them, and equations that allow no step have no solution.  Terms are compared without the descriptions of
units, so that solutions are equations between terms.

Nothing is said about unit variables and open records.  An equation between units can have solutions none of
which is most general, and an open record accepts fields that it does not take over.
-/

namespace Tabula

namespace Store

variable {s s' : Store} {u v : UnitTerm}

/-- Units without variables can be made equal only if they are equal. -/
theorem unifyUnits_eq_ok_iff_beq (hu : ∀ id, .var id ∉ u.atoms) (hv : ∀ id, .var id ∉ v.atoms) :
    s.unifyUnits u v = .ok s' ↔ u == v ∧ s' = s := by
  constructor
  · intro h
    rw [unifyUnits_eq_ok_iff, resolve_eq_self hu, resolve_eq_self hv] at h
    obtain ⟨q, hq, ⟨hone, rfl⟩ | ⟨-, id, value, hsolve, -⟩⟩ := h
    · have heval := Product.eval_of_divide? Product.respects_unitPower hq
      rw [Product.eval_of_isOne hone] at heval
      exact ⟨Product.beq_of_eval_unitPower_eq (sub_eq_zero.1 heval.symm), rfl⟩
    · exact ((Product.mem_atoms_of_divide? hq (UnitTerm.of_solve? hsolve).1).elim (hu id) (hv id)).elim
  · rintro ⟨hbeq, rfl⟩
    exact unifyUnits_of_beq (by rwa [resolve_eq_self hu, resolve_eq_self hv])

end Store

namespace Term

/-- There are no unit variables, and all records are complete and have their fields in order. -/
def Plain : Term → Prop :=
  Everywhere Regular fun u => ∀ id, .var id ∉ u.atoms

end Term

namespace Store

variable {types : VarId → Term}

/-- The variables stand for what their values become. -/
def ModelledBy (s : Store) (types : VarId → Term) : Prop :=
  ∀ id t, s.typeValue? id = some t → types id = t.image types

theorem ModelledBy.image_walk {s : Store} (h : s.ModelledBy types) (t : Term) :
    (s.walk t).image types = t.image types :=
  walk_of (P := fun t' => t'.image types = t.image types)
    (fun id t' hvalue heq => (h id t' hvalue).symm.trans heq) rfl

/-- What stands for a variable is at least as large as what stands for the variables that it leads to. -/
theorem ModelledBy.sizeOf_le {s : Store} (h : s.ModelledBy types) {i j : VarId}
    (hpath : Relation.ReflTransGen s.TypeEdge i j) : sizeOf (types j) ≤ sizeOf (types i) := by
  induction hpath with
  | refl => exact Nat.le_refl _
  | @tail j k _ hedge ih =>
      obtain ⟨t, hvalue, hk⟩ := hedge
      have hle : sizeOf (types k) ≤ sizeOf (t.image types) := Term.sizeOf_le_of_mentions hk
      rw [← h j t hvalue] at hle
      exact Nat.le_trans hle ih

theorem modelledBy_assignType_iff {s : Store} {id : VarId} {t : Term} (hne : t ≠ .var id)
    (hid : id < s.types.size) (hnone : s.typeValue? id = none) :
    (s.assignType id t).ModelledBy types ↔ s.ModelledBy types ∧ types id = t.image types := by
  have hvalue : ∀ j, (s.assignType id t).typeValue? j = if j = id then some t else s.typeValue? j :=
    fun j => typeValue?_assignType hne hid
  constructor
  · intro h
    refine ⟨fun j t' ht' => h j t' ?_, h id t (by rw [hvalue, if_pos rfl])⟩
    rw [hvalue, if_neg ?_]
    · exact ht'
    · rintro rfl
      rw [hnone] at ht'
      cases ht'
  · rintro ⟨h, ht⟩ j t' ht'
    rw [hvalue] at ht'
    split at ht'
    · rename_i heq
      cases ht'
      exact heq ▸ ht
    · exact h j t' ht'

end Store

namespace Pending

variable {types : VarId → Term} {w w' : Pending}

/-- The variables stand for terms that satisfy the equations. -/
structure SolvedBy (types : VarId → Term) (w : Pending) : Prop where
  store : w.store.ModelledBy types
  equations : ∀ q ∈ w.equations, q.Holds (fun e f => e.image types = f.image types) fun u v => u.bare = v.bare

/-- There are no unit variables, and all records are complete and have their fields in order. -/
def Plain : Pending → Prop :=
  Everywhere Term.Regular fun u => ∀ id, .var id ∉ u.atoms

theorem Plain.walk {s : Store} {qs : List Equation} (h : Plain ⟨qs, s⟩) {t : Term} (ht : t.Plain) :
    (s.walk t).Plain :=
  Store.walk_of (fun id t hvalue _ => h.store id t hvalue) ht

/-- A value is demanded if the variable has to stand for what the value becomes. -/
theorem image_walk_eq_iff {s : Store} {e f t : Term} {id : VarId}
    (hdemand : (s.walk e).demand (s.walk f) = .value id t) :
    (s.walk e).image types = (s.walk f).image types ↔ types id = t.image types := by
  rcases Term.demand_value_cases hdemand with ⟨hvar, rfl⟩ | ⟨hvar, rfl⟩
  · rw [hvar]
    rfl
  · rw [hvar]
    exact eq_comm

/-- A step changes nothing about the solutions. -/
theorem Step.solvedBy_iff (h : Step w w') (hw : w.WellFormed) (hplain : w.Plain) :
    w.SolvedBy types ↔ w'.SolvedBy types := by
  cases h with
  | parts hdemand =>
      obtain ⟨⟨he, hf⟩, -⟩ := List.forall_mem_cons.1 hplain.equations
      have hhold := @Term.demand_hold_iff_bind_eq types UnitTerm.bare _ _ _ (hplain.walk he).node
        (hplain.walk hf).node hdemand
      constructor
      · rintro ⟨hstore, hequations⟩
        obtain ⟨hfirst, hrest⟩ := List.forall_mem_cons.1 hequations
        have heq := (hstore.image_walk _).trans (hfirst.trans (hstore.image_walk _).symm)
        exact ⟨hstore, List.forall_mem_append.2 ⟨hhold.2 heq, hrest⟩⟩
      · rintro ⟨hstore, hequations⟩
        obtain ⟨hqs, hrest⟩ := List.forall_mem_append.1 hequations
        have heq := (hstore.image_walk _).symm.trans ((hhold.1 hqs).trans (hstore.image_walk _))
        exact ⟨hstore, List.forall_mem_cons.2 ⟨heq, hrest⟩⟩
  | value hdemand hoccurs =>
      obtain ⟨⟨he, hf⟩, -⟩ := List.forall_mem_cons.1 hw.equations
      obtain ⟨hid, hnone, -⟩ := hw.store.of_demand_value he hf hdemand
      have hstores := @Store.modelledBy_assignType_iff types _ _ _ (hw.store.ne_var_of_occurs hoccurs) hid hnone
      have himage := @image_walk_eq_iff types _ _ _ _ _ hdemand
      constructor
      · rintro ⟨hstore, hequations⟩
        obtain ⟨hfirst, hrest⟩ := List.forall_mem_cons.1 hequations
        have heq := (hstore.image_walk _).trans (hfirst.trans (hstore.image_walk _).symm)
        exact ⟨hstores.2 ⟨hstore, himage.1 heq⟩, hrest⟩
      · rintro ⟨hstore', hrest⟩
        obtain ⟨hstore, ht⟩ := hstores.1 hstore'
        have heq := (hstore.image_walk _).symm.trans ((himage.2 ht).trans (hstore.image_walk _))
        exact ⟨hstore, List.forall_mem_cons.2 ⟨heq, hrest⟩⟩
  | units hunits =>
      obtain ⟨⟨hu, hv⟩, -⟩ := List.forall_mem_cons.1 hplain.equations
      obtain ⟨hbeq, rfl⟩ := (Store.unifyUnits_eq_ok_iff_beq hu hv).1 hunits
      have hbare := UnitTerm.bare_eq_iff.2 hbeq
      constructor
      · rintro ⟨hstore, hequations⟩
        exact ⟨hstore, (List.forall_mem_cons.1 hequations).2⟩
      · rintro ⟨hstore, hrest⟩
        exact ⟨hstore, List.forall_mem_cons.2 ⟨hbare, hrest⟩⟩

theorem Leads.solvedBy_iff (h : w.Leads w') (hw : w.WellFormed) (hplain : w.Plain) :
    w.SolvedBy types ↔ w'.SolvedBy types := by
  induction h with
  | refl => exact Iff.rfl
  | tail hleads hstep ih =>
      exact ih.trans (hstep.solvedBy_iff (Leads.wellFormed hleads hw).1 (Leads.everywhere hleads hplain))

/-- A variable cannot stand for what a term becomes in which it occurs. -/
theorem image_ne_of_occurs {s : Store} {e f t : Term} {id : VarId} (hs : s.WellFormed)
    (hdemand : (s.walk e).demand (s.walk f) = .value id t) (hoccurs : s.occurs id t = true)
    (hstore : s.ModelledBy types) : types id ≠ t.image types := by
  intro heq
  obtain ⟨j, hj, hpath⟩ := hs.occurs_iff.1 hoccurs
  by_cases hvar : t = .var j
  · -- The term is a variable without a value, so nothing is reached from it but itself.
    have hnone : s.typeValue? j = none := by
      rcases Term.demand_value_cases hdemand with ⟨-, hwalk⟩ | ⟨-, hwalk⟩
      · exact hs.typeValue?_of_walk (hwalk.trans hvar)
      · exact hs.typeValue?_of_walk (hwalk.trans hvar)
    rcases hpath.cases_head with rfl | ⟨k, ⟨value, hvalue, -⟩, -⟩
    · exact Term.demand_value_ne hdemand hvar
    · rw [hnone] at hvalue
      cases hvalue
  · have hlt : sizeOf (types j) < sizeOf (t.image types) := Term.sizeOf_lt_of_mentions hj hvar
    have hle := hstore.sizeOf_le hpath
    rw [heq] at hle
    exact Nat.not_le_of_lt hlt hle

/-- Equations that allow no step have no solution. -/
theorem Stuck.not_solvedBy (h : w.Stuck) (hw : w.WellFormed) (hplain : w.Plain) : ¬ w.SolvedBy types := by
  obtain ⟨qs, s⟩ := w
  obtain ⟨hne, hstep⟩ := h
  cases qs with
  | nil => exact absurd rfl hne
  | cons q rest =>
      rintro ⟨hstore, hequations⟩
      have hfirst := (List.forall_mem_cons.1 hequations).1
      cases q with
      | types field e f =>
          cases hdemand : (s.walk e).demand (s.walk f) with
          | equations qs => exact hstep _ (.parts hdemand)
          | value id t =>
              cases hoccurs : s.occurs id t with
              | false => exact hstep _ (.value hdemand hoccurs)
              | true =>
                  have heq := (hstore.image_walk _).trans (hfirst.trans (hstore.image_walk _).symm)
                  exact image_ne_of_occurs hw.store hdemand hoccurs hstore ((image_walk_eq_iff hdemand).1 heq)
      | units u v =>
          obtain ⟨⟨hu, hv⟩, -⟩ := List.forall_mem_cons.1 hplain.equations
          exact hstep _ (.units ((Store.unifyUnits_eq_ok_iff_beq hu hv).2 ⟨UnitTerm.bare_eq_iff.1 hfirst, rfl⟩))
      | failure err => exact hfirst

end Pending

namespace Store

/-- The substitution makes every variable that has a value the same term as its value. -/
def SolvedBy (s : Store) (σ : VarId → Term) : Prop :=
  ∀ id t, s.typeValue? id = some t → (σ id).Same (t.subst σ)

theorem solvedBy_iff {s : Store} {σ : VarId → Term} :
    s.SolvedBy σ ↔ s.ModelledBy fun id => (σ id).bare := by
  simp only [SolvedBy, ModelledBy, Term.Same, Term.bare_subst]

theorem pending_solvedBy_iff {s : Store} {e f : Term} {σ : VarId → Term} :
    Pending.SolvedBy (fun id => (σ id).bare) ⟨[.types none e f], s⟩ ↔
      s.SolvedBy σ ∧ (e.subst σ).Same (f.subst σ) := by
  rw [solvedBy_iff, Term.Same, Term.bare_subst, Term.bare_subst]
  constructor
  · rintro ⟨hstore, hequations⟩
    have heq := List.forall_mem_singleton.1 hequations
    exact ⟨hstore, heq⟩
  · rintro ⟨hstore, heq⟩
    exact ⟨hstore, List.forall_mem_singleton.2 heq⟩

/-- A well formed store has a solution: every variable becomes its value with all values put in place. -/
theorem WellFormed.exists_solvedBy {s : Store} (hs : s.WellFormed)
    (hordered : ∀ id t, s.typeValue? id = some t → t.Ordered) :
    ∃ σ : VarId → Term, (∀ id, (σ id).Ordered) ∧ s.SolvedBy σ := by
  let F (id : VarId) (σ : VarId → { t : Term // t.Ordered }) : { t : Term // t.Ordered } :=
    match hvalue : s.typeValue? id with
    | none => ⟨.var id, Term.everywhere_var.2 nofun⟩
    | some t => ⟨t.subst fun j => (σ j).1, .subst (fun j => (σ j).2) (hordered id t hvalue)⟩
  have hvar : Nonempty { t : Term // t.Ordered } := ⟨⟨.var 0, Term.everywhere_var.2 nofun⟩⟩
  have hF : ∀ id σ σ', (∀ j, s.TypeEdge id j → σ j = σ' j) → F id σ = F id σ' := by
    intro id σ σ' h
    dsimp only [F]
    split
    · rfl
    · rename_i t hvalue
      refine Subtype.ext (Term.bind_congr fun j hj => ?_)
      rw [h j ⟨t, hvalue, hj⟩]
  obtain ⟨σ, hσ⟩ := hs.typesAcyclic.exists_fixpoint (fun _ _ => hs.lt_of_typeEdge) F hF
  have hfix : ∀ id t, s.typeValue? id = some t → (σ id).1 = t.subst fun j => (σ j).1 := by
    intro id t hvalue
    rw [hσ id]
    dsimp only [F]
    split
    · rename_i hnone
      rw [hnone] at hvalue
      cases hvalue
    · rename_i t' hvalue'
      rw [hvalue'] at hvalue
      cases hvalue
      rfl
  exact ⟨fun id => (σ id).1, fun id => (σ id).2, fun id t hvalue => congrArg Term.bare (hfix id t hvalue)⟩

/-- On plain terms unification succeeds exactly if there is a solution, and the resulting store has all the
solutions. -/
theorem unify_mostGeneral {s : Store} {e f : Term} (hs : s.Reachable)
    (hvalues : ∀ id t, s.typeValue? id = some t → t.Plain)
    (he : e.Plain) (hebelow : e.Below s.types.size s.units.size)
    (hf : f.Plain) (hfbelow : f.Below s.types.size s.units.size) :
    ((s.unify e f).result = .ok () ↔
      ∃ σ : VarId → Term, (∀ id, (σ id).Ordered) ∧ s.SolvedBy σ ∧ (e.subst σ).Same (f.subst σ)) ∧
    ((s.unify e f).result = .ok () →
      ∀ σ : VarId → Term, s.SolvedBy σ → (e.subst σ).Same (f.subst σ) → (s.unify e f).store.SolvedBy σ) := by
  have hw : Pending.WellFormed ⟨[.types none e f], s⟩ :=
    ⟨hs.wellFormed, List.forall_mem_singleton.2 ⟨hebelow, hfbelow⟩⟩
  have hplain : Pending.Plain ⟨[.types none e f], s⟩ := ⟨hvalues, List.forall_mem_singleton.2 ⟨he, hf⟩⟩
  -- The solutions stay the same up to the end of a run that succeeds.
  have hsame : (s.unify e f).result = .ok () → ∀ σ : VarId → Term,
      (s.SolvedBy σ ∧ (e.subst σ).Same (f.subst σ)) ↔ (s.unify e f).store.SolvedBy σ := by
    intro hok σ
    rw [← pending_solvedBy_iff, (Pending.leads_of_unify_ok hok).solvedBy_iff hw hplain, solvedBy_iff]
    exact ⟨fun h => h.store, fun h => ⟨h, by simp⟩⟩
  refine ⟨⟨fun hok => ?_, ?_⟩, fun hok σ hstore heq => (hsame hok σ).1 ⟨hstore, heq⟩⟩
  · have hleads := Pending.leads_of_unify_ok hok
    have hordered : ∀ id t, (s.unify e f).store.typeValue? id = some t → t.Ordered := fun id t hvalue =>
      ((hleads.everywhere hplain).store id t hvalue).imp (fun _ h fields complete heq => (h fields complete heq).2)
        fun _ _ => trivial
    obtain ⟨σ, hσ, hsolved⟩ := (hleads.wellFormed hw).1.store.exists_solvedBy hordered
    obtain ⟨hstore, heq⟩ := (hsame hok σ).2 hsolved
    exact ⟨σ, hσ, hstore, heq⟩
  · rintro ⟨σ, -, hstore, heq⟩
    cases hresult : (s.unify e f).result with
    | ok _ => rfl
    | error err =>
        obtain ⟨w, hleads, hstuck⟩ := hs.wellFormed.exists_stuck_of_unify hebelow hfbelow hresult
        have hsolved := (hleads.solvedBy_iff hw hplain).1 (pending_solvedBy_iff.2 ⟨hstore, heq⟩)
        exact absurd hsolved (hstuck.not_solvedBy (hleads.wellFormed hw).1 (hleads.everywhere hplain))

/-- A variable that is shared by two fields gets a value that mentions another variable with a value; a
variable is not equal to an array of itself. -/
theorem unify_mostGeneral_of_shared_variables :
    let s := Store.empty.run [.freshType, .freshType, .freshType, .unify (.var 0) (.array (.var 1))]
    let e : Term := .record [⟨"from", .var 0, true⟩, ⟨"to", .var 2, false⟩] true
    let f : Term := .record [⟨"from", .var 2, true⟩, ⟨"to", .array (.number .one), false⟩] true
    (∃ σ : VarId → Term, s.SolvedBy σ ∧ (e.subst σ).Same (f.subst σ)) ∧
      (∀ σ : VarId → Term, s.SolvedBy σ → (e.subst σ).Same (f.subst σ) → (s.unify e f).store.SolvedBy σ) ∧
      ¬ ∃ σ : VarId → Term, (∀ id, (σ id).Ordered) ∧ s.SolvedBy σ ∧
        ((Term.var 1).subst σ).Same ((Term.var 0).subst σ) := by
  intro s e f
  have hreachable : s.Reachable := by
    refine ⟨[.freshType, .freshType, .freshType, .unify (.var 0) (.array (.var 1))],
      ⟨trivial, trivial, trivial, ?_, trivial⟩, rfl⟩
    have hsize : ((Store.empty.perform .freshType).perform .freshType).perform .freshType =
        ⟨#[none, none, none], #[]⟩ := rfl
    rw [hsize]
    simp [Operation.Allowed, Term.Below]
  have hstore : s = ⟨#[some (.array (.var 1)), none, none], #[]⟩ := rfl
  have hvalues : ∀ id t, s.typeValue? id = some t → t.Plain := by
    intro id t h
    have hid := lt_of_typeValue? h
    rw [hstore] at h hid
    have hcases : ∀ n : Nat, n < 3 → n = 0 ∨ n = 1 ∨ n = 2 := by omega
    rcases hcases id hid with rfl | rfl | rfl
    · cases h
      simp [Term.Plain, Term.Regular]
    · cases h
    · cases h
  have hvar : ∀ id, (Term.var id).Plain := by
    intro id
    refine Term.everywhere_var.2 fun _ _ heq => ?_
    cases heq
  have hascending : ∀ x y : Field Term, x.name = "from" → y.name = "to" → Ascending Field.name [x, y] := by
    intro x y hx hy
    have hlt : compare "from" "to" = .lt := by decide
    simp [Ascending, hx, hy, hlt]
  have he : e.Plain := by
    simp [e, Term.Plain, Term.Regular, hascending]
  have hf : f.Plain := by
    simp [f, Term.Plain, Term.Regular, hascending, Product.one, Product.atoms]
  have hbelow : ∀ t ∈ [e, f, .var 0, .var 1], t.Below s.types.size s.units.size := by
    rw [hstore]
    simp [e, f, Term.Below, UnitTerm.Below, Product.one, Product.atoms]
  obtain ⟨hiff, hall⟩ := unify_mostGeneral hreachable hvalues he (hbelow e (by simp)) hf (hbelow f (by simp))
  have hcyclic := (unify_mostGeneral hreachable hvalues (hvar 1) (hbelow _ (by simp)) (hvar 0)
    (hbelow _ (by simp))).1
  have hok : (s.unify e f).result = .ok () := rfl
  obtain ⟨σ, -, hσ⟩ := hiff.1 hok
  refine ⟨⟨σ, hσ⟩, hall hok, fun hsolution => ?_⟩
  cases hcyclic.2 hsolution

end Store

end Tabula
