import Tabula.Proofs.BuiltAlike
import Tabula.Proofs.TermParts

/-!
# Substitution in terms

`Term.bind` replaces the type variables and the units of a term.  Two uses of it matter: `Term.subst`
replaces type variables by terms, and `Term.bare` takes the descriptions of declared units away, so two
terms are the same up to descriptions if they have the same bare term.
-/

namespace Tabula

open List (Forall₂)

/-- The argument with another unit or another type. -/
def Arg.map {υ υ' τ τ' : Type} (f : υ → υ') (g : τ → τ') : Arg υ τ → Arg υ' τ'
  | .unit u => .unit (f u)
  | .type t => .type (g t)

/-- The field with another type. -/
def Field.map {τ τ' : Type} (f : τ → τ') (x : Field τ) : Field τ' :=
  ⟨x.name, f x.type, x.required⟩

namespace Term

mutual

/-- Replace type variables by terms and units by units. -/
def bind (types : VarId → Term) (units : UnitTerm → UnitTerm) : Term → Term
  | var id => types id
  | primitive p => primitive p
  | number u => number (units u)
  | tagged name args => tagged name (bindArgs types units args)
  | record fields complete => record (bindFields types units fields) complete
  | array element => array (bind types units element)
  | function params result => function (bindParams types units params) (bind types units result)
termination_by structural t => t

/-- Replacement in a list of arguments. -/
def bindArgs (types : VarId → Term) (units : UnitTerm → UnitTerm) :
    List (Arg UnitTerm Term) → List (Arg UnitTerm Term)
  | [] => []
  | .unit u :: args => .unit (units u) :: bindArgs types units args
  | .type t :: args => .type (bind types units t) :: bindArgs types units args
termination_by structural args => args

/-- Replacement in a list of fields. -/
def bindFields (types : VarId → Term) (units : UnitTerm → UnitTerm) : List (Field Term) → List (Field Term)
  | [] => []
  | ⟨name, t, required⟩ :: fields => ⟨name, bind types units t, required⟩ :: bindFields types units fields
termination_by structural fields => fields

/-- Replacement in a list of parameters. -/
def bindParams (types : VarId → Term) (units : UnitTerm → UnitTerm) : List Term → List Term
  | [] => []
  | t :: params => bind types units t :: bindParams types units params
termination_by structural params => params

end

variable {types types' : VarId → Term} {units units' : UnitTerm → UnitTerm} {e f t : Term}

theorem bindArgs_eq (args : List (Arg UnitTerm Term)) :
    bindArgs types units args = args.map (Arg.map units (bind types units)) := by
  induction args with
  | nil => rfl
  | cons a args ih => cases a <;> simp [bindArgs, ih, Arg.map]

theorem bindFields_eq (fields : List (Field Term)) :
    bindFields types units fields = fields.map (Field.map (bind types units)) := by
  induction fields with
  | nil => rfl
  | cons f fields ih => simp [bindFields, ih, Field.map]

theorem bindParams_eq (params : List Term) :
    bindParams types units params = params.map (bind types units) := by
  induction params with
  | nil => rfl
  | cons t params ih => simp [bindParams, ih]

/-- What is replaced in a term is replaced in the parts of the term. -/
theorem children_bind (h : ∀ id, t ≠ .var id) :
    (t.bind types units).children = t.children.map (bind types units) := by
  cases t with
  | var id => exact absurd rfl (h id)
  | primitive | number => rfl
  | tagged name args =>
      simp only [bind, children, bindArgs_eq, List.filterMap_map, List.map_filterMap]
      congr 1
      funext a
      cases a <;> rfl
  | record fields complete =>
      simp only [bind, children, bindFields_eq, List.map_map]
      rfl
  | array element => rfl
  | function params result => simp [bind, children, bindParams_eq]

theorem bind_congr_children (htypes : ∀ id, t = .var id → types id = types' id)
    (hunits : ∀ u ∈ t.units, units u = units' u)
    (hchildren : ∀ c ∈ t.children, c.bind types units = c.bind types' units') :
    t.bind types units = t.bind types' units' := by
  cases t with
  | var id => exact htypes id rfl
  | primitive p => rfl
  | number u => exact congrArg number (hunits u List.mem_cons_self)
  | tagged name args =>
      simp only [bind, bindArgs_eq]
      refine congrArg (tagged name) (List.map_congr_left fun a ha => ?_)
      cases a with
      | unit u => exact congrArg Arg.unit (hunits u (mem_units_tagged.2 ha))
      | type t => exact congrArg Arg.type (hchildren t (mem_children_tagged.2 ha))
  | record fields complete =>
      simp only [bind, bindFields_eq]
      refine congrArg (record · complete) (List.map_congr_left fun f hf => ?_)
      simp only [Field.map, hchildren f.type (List.mem_map_of_mem hf)]
  | array element => exact congrArg array (hchildren element List.mem_cons_self)
  | function params result =>
      simp only [bind, bindParams_eq]
      have hresult := hchildren result (List.mem_append_right _ List.mem_cons_self)
      rw [hresult, List.map_congr_left fun t ht => hchildren t (List.mem_append_left _ ht)]

/-- Only the variables that occur in the term matter. -/
theorem bind_congr (h : ∀ id, t.Mentions id → types id = types' id) :
    t.bind types units = t.bind types' units := by
  induction t using induction_on_children with
  | step t ih =>
      refine bind_congr_children (fun id hid => h id (hid ▸ .here)) (fun _ _ => rfl) fun c hc => ?_
      exact ih c hc fun id hid => h id (.inside hc hid)

theorem bind_bind : (t.bind types units).bind types' units' =
    t.bind (fun id => (types id).bind types' units') (fun u => units' (units u)) := by
  induction t using induction_on_children with
  | step t ih =>
      cases t with
      | var | primitive | number => rfl
      | tagged name args =>
          simp only [bind, bindArgs_eq, List.map_map]
          refine congrArg (tagged name) (List.map_congr_left fun a ha => ?_)
          cases a with
          | unit u => rfl
          | type t => exact congrArg Arg.type (ih t (mem_children_tagged.2 ha))
      | record fields complete =>
          simp only [bind, bindFields_eq, List.map_map]
          refine congrArg (record · complete) (List.map_congr_left fun f hf => ?_)
          simp only [Function.comp, Field.map, ih f.type (List.mem_map_of_mem hf)]
      | array element => exact congrArg array (ih element List.mem_cons_self)
      | function params result =>
          simp only [bind, bindParams_eq, List.map_map]
          have hresult := ih result (List.mem_append_right _ List.mem_cons_self)
          have hparams : ∀ t ∈ params, ((bind types' units') ∘ (bind types units)) t = _ := fun t ht =>
            ih t (List.mem_append_left _ ht)
          rw [hresult, List.map_congr_left hparams]

section Equality

/-- Terms that are built alike from parts that become equal become equal. -/
theorem bind_eq_of_alike
    (h : Alike (fun s t => s.bind types units = t.bind types units) (fun u v => units u = units v) e f) :
    e.bind types units = f.bind types units := by
  cases h with
  | var | primitive => rfl
  | number h => exact congrArg number h
  | tagged h =>
      simp only [bind, bindArgs_eq]
      refine congrArg (tagged _) (map_eq_map_iff_forall₂.2 (h.imp fun a b hab => ?_))
      cases hab with
      | unit h => exact congrArg Arg.unit h
      | type h => exact congrArg Arg.type h
  | record h =>
      simp only [bind, bindFields_eq]
      refine congrArg (record · _) (map_eq_map_iff_forall₂.2 (h.imp fun f g hfg => ?_))
      simp only [Field.map, hfg.name, hfg.type, hfg.required]
  | array h => exact congrArg array h
  | function hparams hresult =>
      simp only [bind, bindParams_eq]
      rw [hresult, map_eq_map_iff_forall₂.2 hparams]

/-- Terms other than variables that become equal are built alike from parts that become equal. -/
theorem alike_of_bind_eq (hvar : ∀ id, e ≠ .var id) (hvar' : ∀ id, f ≠ .var id)
    (h : e.bind types units = f.bind types units) :
    Alike (fun s t => s.bind types units = t.bind types units) (fun u v => units u = units v) e f := by
  cases e with
  | var id => exact absurd rfl (hvar id)
  | primitive p =>
      cases f with
      | primitive q =>
          cases h
          exact .primitive p
      | var id => exact absurd rfl (hvar' id)
      | _ => cases h
  | number u =>
      cases f with
      | number v => exact .number (number.inj h)
      | var id => exact absurd rfl (hvar' id)
      | _ => cases h
  | tagged name args =>
      cases f with
      | tagged name' args' =>
          simp only [bind, bindArgs_eq, tagged.injEq] at h
          obtain ⟨rfl, h⟩ := h
          refine .tagged ((map_eq_map_iff_forall₂.1 h).imp fun a b hab => ?_)
          cases a with
          | unit u =>
              cases b with
              | unit v => exact .unit (Arg.unit.inj hab)
              | type t => cases hab
          | type s =>
              cases b with
              | unit v => cases hab
              | type t => exact .type (Arg.type.inj hab)
      | var id => exact absurd rfl (hvar' id)
      | _ => cases h
  | record fields complete =>
      cases f with
      | record fields' complete' =>
          simp only [bind, bindFields_eq, record.injEq] at h
          obtain ⟨h, rfl⟩ := h
          refine .record ((map_eq_map_iff_forall₂.1 h).imp fun f g hfg => ?_)
          simp only [Field.map, Field.mk.injEq] at hfg
          exact ⟨hfg.1, hfg.2.1, hfg.2.2⟩
      | var id => exact absurd rfl (hvar' id)
      | _ => cases h
  | array s =>
      cases f with
      | array t => exact .array (array.inj h)
      | var id => exact absurd rfl (hvar' id)
      | _ => cases h
  | function params result =>
      cases f with
      | function params' result' =>
          simp only [bind, bindParams_eq, function.injEq] at h
          exact .function (map_eq_map_iff_forall₂.1 h.1) h.2
      | var id => exact absurd rfl (hvar' id)
      | _ => cases h

/-- Two terms demand what makes them equal. -/
theorem demand_hold_iff_bind_eq {qs : List Equation} (he : e.Regular) (hf : f.Regular)
    (h : e.demand f = .equations qs) :
    (∀ q ∈ qs, q.Holds (fun s t => s.bind types units = t.bind types units) fun u v => units u = units v) ↔
      e.bind types units = f.bind types units := by
  rw [demand_hold_iff he hf h]
  refine ⟨bind_eq_of_alike, fun heq => ?_⟩
  rcases demand_equations_cases h with ⟨id, rfl, rfl⟩ | ⟨hvar, hvar'⟩
  · exact .var id
  · exact alike_of_bind_eq hvar hvar' heq

end Equality

section Size

variable {id : VarId}

theorem sizeOf_bind_lt_of_mem_children {c : Term} (hc : c ∈ t.children) :
    sizeOf (c.bind types units) < sizeOf (t.bind types units) := by
  have hvar : ∀ id, t ≠ .var id := by
    rintro id rfl
    cases hc
  refine sizeOf_lt_of_mem_children ?_
  rw [children_bind hvar]
  exact List.mem_map_of_mem hc

theorem sizeOf_le_of_mentions (h : t.Mentions id) : sizeOf (types id) ≤ sizeOf (t.bind types units) := by
  induction h with
  | here => exact Nat.le_refl _
  | inside hc _ ih => exact Nat.le_trans ih (Nat.le_of_lt (sizeOf_bind_lt_of_mem_children hc))

/-- What stands for a variable inside a term is smaller than what stands for the term. -/
theorem sizeOf_lt_of_mentions (h : t.Mentions id) (hne : t ≠ .var id) :
    sizeOf (types id) < sizeOf (t.bind types units) := by
  cases h with
  | here => exact absurd rfl hne
  | inside hc h => exact Nat.lt_of_le_of_lt (sizeOf_le_of_mentions h) (sizeOf_bind_lt_of_mem_children hc)

end Size

end Term

section Bare

/-- The atom without a description. -/
def Atom.bare {ν : Type} : Atom ν → Atom ν
  | var v => var v
  | unit u => unit (.named u.name)

theorem Atom.compare_bare {ν : Type} [Ord ν] (a b : Atom ν) : compare a.bare b.bare = compare a b := by
  cases a <;> cases b <;> rfl

theorem Atom.bare_eq_iff {ν : Type} [Ord ν] [Std.LawfulEqOrd ν] {a b : Atom ν} :
    a.bare = b.bare ↔ compare a b = .eq := by
  cases a with
  | var v =>
      rw [compare_var_eq_iff]
      cases b with
      | var w => exact eq_comm
      | unit w => exact iff_of_false (fun h => by cases h) fun h => by cases h
  | unit u =>
      rw [compare_unit_eq_iff]
      cases b with
      | var w => exact iff_of_false (fun h => by cases h) fun ⟨_, h, _⟩ => by cases h
      | unit w => simp [bare, SingleUnit.named, eq_comm]

/-- The unit without descriptions. -/
def UnitTerm.bare (u : UnitTerm) : UnitTerm where
  factors := u.factors.map fun f => (f.1.bare, f.2)
  ordered := List.pairwise_map.2 (u.ordered.imp fun h => (Atom.compare_bare _ _).trans h)
  nonzero := by
    intro f hf
    obtain ⟨g, hg, rfl⟩ := List.mem_map.1 hf
    exact u.nonzero g hg

/-- Units without descriptions are equal if the units are. -/
theorem UnitTerm.bare_eq_iff {u v : UnitTerm} : u.bare = v.bare ↔ u == v := by
  rw [Product.beq_iff]
  have hfactors : u.bare = v.bare ↔ u.bare.factors = v.bare.factors :=
    ⟨congrArg Product.factors, Product.eq_of_factors_eq⟩
  rw [hfactors, bare, bare, map_eq_map_iff_forall₂]
  simp only [Prod.mk.injEq, Atom.bare_eq_iff]

namespace Term

/-- Replace type variables by terms. -/
def subst (σ : VarId → Term) (t : Term) : Term :=
  t.bind σ id

/-- The term without descriptions of units. -/
def bare (t : Term) : Term :=
  t.bind .var UnitTerm.bare

/-- What the term becomes when variables are replaced, without descriptions of units. -/
def image (types : VarId → Term) (t : Term) : Term :=
  t.bind types UnitTerm.bare

/-- The terms are equal up to descriptions of units. -/
def Same (s t : Term) : Prop :=
  s.bare = t.bare

theorem bare_subst (σ : VarId → Term) (t : Term) : (t.subst σ).bare = t.image fun id => (σ id).bare :=
  bind_bind

/-- The fields of all records are in order. -/
def Ordered : Term → Prop :=
  Everywhere (fun t => ∀ fields complete, t = .record fields complete → Ascending Field.name fields) fun _ => True

theorem Ordered.subst {σ : VarId → Term} (hσ : ∀ id, (σ id).Ordered) {t : Term} (h : t.Ordered) :
    (t.subst σ).Ordered := by
  induction t using induction_on_children with
  | step t ih =>
      by_cases hvar : ∃ id, t = .var id
      · obtain ⟨id, rfl⟩ := hvar
        exact hσ id
      · have hvar : ∀ id, t ≠ .var id := fun id heq => hvar ⟨id, heq⟩
        refine .intro (fun fields complete heq => ?_) (fun _ _ => trivial) fun c hc => ?_
        · cases t with
          | record fields' complete' =>
              have hfields := h.node fields' complete' rfl
              cases heq
              rw [bindFields_eq]
              exact List.pairwise_map.2 hfields
          | var id => exact absurd rfl (hvar id)
          | _ => cases heq
        · rw [Term.subst, children_bind hvar] at hc
          obtain ⟨c', hc', rfl⟩ := List.mem_map.1 hc
          exact ih c' hc' (h.child c' hc')

end Term

end Bare

end Tabula
