import Mathlib.Algebra.Order.BigOperators.Group.List
import Mathlib.Algebra.Order.Group.Nat
import Tabula.Proofs.Equality
import Tabula.Proofs.TermParts

/-!
# The parts of a written type

A written type has types and units directly below it.  `Scheme.Part` says that a type stands somewhere in
another one, `Scheme.nodes` lists all types that do, each as often as it occurs.

Parts are compared with `==` in the same way as whole types: equal types have equal parts in the same order.
-/

namespace Tabula

open List (Forall₂)

namespace Scheme

/-- The types directly below a type. -/
def children : Scheme → List Scheme
  | primitive _ | number _ | ident _ => []
  | apply _ args => args.filterMap Arg.type?
  | record fields _ => fields.map Field.type
  | array element => [element]
  | function params result => params ++ [result]

theorem mem_children_apply {name : Name} {args : List (Arg UnitScheme Scheme)} {t : Scheme} :
    t ∈ (apply name args).children ↔ .type t ∈ args := by
  simp [children, List.mem_filterMap, Arg.type?_eq_some_iff]

theorem sizeOf_lt_of_mem_children {c t : Scheme} (h : c ∈ t.children) : sizeOf c < sizeOf t := by
  cases t with
  | primitive | number | ident => cases h
  | apply name args =>
      have hmem := List.sizeOf_lt_of_mem (mem_children_apply.1 h)
      simp only [apply.sizeOf_spec, Arg.type.sizeOf_spec] at hmem ⊢
      omega
  | record fields complete =>
      obtain ⟨⟨name, type, required⟩, hf, rfl⟩ := List.mem_map.1 h
      have hmem := List.sizeOf_lt_of_mem hf
      simp only [record.sizeOf_spec, Field.mk.sizeOf_spec] at hmem ⊢
      omega
  | array element =>
      obtain rfl := List.mem_singleton.1 h
      simp only [array.sizeOf_spec]
      omega
  | function params result =>
      rcases List.mem_append.1 h with h | h
      · have hmem := List.sizeOf_lt_of_mem h
        simp only [function.sizeOf_spec]
        omega
      · obtain rfl := List.mem_singleton.1 h
        simp only [function.sizeOf_spec]
        omega

/-- A property of types holds of all of them if it goes from the types directly below a type to the type. -/
@[elab_as_elim] theorem induction_on_children {motive : Scheme → Prop}
    (step : ∀ t, (∀ c ∈ t.children, motive c) → motive t) (t : Scheme) : motive t := by
  induction hsize : sizeOf t using Nat.strongRecOn generalizing t with
  | _ n ih => exact step t fun c hc => ih _ (hsize ▸ sizeOf_lt_of_mem_children hc) c rfl

/-- The type `p` is the type itself or stands somewhere in it. -/
inductive Part (p : Scheme) : Scheme → Prop where
  | self : Part p p
  | arg {name : Name} {args : List (Arg UnitScheme Scheme)} {t : Scheme} (ht : .type t ∈ args) (h : Part p t) :
      Part p (.apply name args)
  | field {fields : List (Field Scheme)} {complete : Bool} {f : Field Scheme} (hf : f ∈ fields)
      (h : Part p f.type) : Part p (.record fields complete)
  | element {t : Scheme} (h : Part p t) : Part p (.array t)
  | param {params : List Scheme} {result t : Scheme} (ht : t ∈ params) (h : Part p t) :
      Part p (.function params result)
  | result {params : List Scheme} {result : Scheme} (h : Part p result) : Part p (.function params result)

/-- The units directly below a type. -/
def units : Scheme → List UnitScheme
  | number u => [u]
  | apply _ args => args.filterMap Arg.unit?
  | _ => []

/-- The unit stands somewhere in the type. -/
def HasUnit (u : UnitScheme) (t : Scheme) : Prop :=
  ∃ p, Part p t ∧ u ∈ p.units

section Inversion

variable {p : Scheme}

@[simp] theorem part_primitive_iff {q : Primitive} : Part p (.primitive q) ↔ p = .primitive q :=
  ⟨fun h => by cases h; rfl, fun h => h ▸ .self⟩

@[simp] theorem part_number_iff {u : UnitScheme} : Part p (.number u) ↔ p = .number u :=
  ⟨fun h => by cases h; rfl, fun h => h ▸ .self⟩

@[simp] theorem part_ident_iff {name : Name} : Part p (.ident name) ↔ p = .ident name :=
  ⟨fun h => by cases h; rfl, fun h => h ▸ .self⟩

@[simp] theorem part_record_iff {fields : List (Field Scheme)} {complete : Bool} :
    Part p (.record fields complete) ↔ p = .record fields complete ∨ ∃ f ∈ fields, Part p f.type := by
  constructor
  · intro h
    cases h with
    | self => exact .inl rfl
    | field hf h => exact .inr ⟨_, hf, h⟩
  · rintro (rfl | ⟨f, hf, h⟩)
    · exact .self
    · exact .field hf h

@[simp] theorem part_apply_iff {name : Name} {args : List (Arg UnitScheme Scheme)} :
    Part p (.apply name args) ↔ p = .apply name args ∨ ∃ t, .type t ∈ args ∧ Part p t := by
  constructor
  · intro h
    cases h with
    | self => exact .inl rfl
    | arg ht h => exact .inr ⟨_, ht, h⟩
  · rintro (rfl | ⟨t, ht, h⟩)
    · exact .self
    · exact .arg ht h

@[simp] theorem part_function_iff {params : List Scheme} {result : Scheme} :
    Part p (.function params result) ↔
      p = .function params result ∨ (∃ t ∈ params, Part p t) ∨ Part p result := by
  constructor
  · intro h
    cases h with
    | self => exact .inl rfl
    | param ht h => exact .inr (.inl ⟨_, ht, h⟩)
    | result h => exact .inr (.inr h)
  · rintro (rfl | ⟨t, ht, h⟩ | h)
    · exact .self
    · exact .param ht h
    · exact .result h

end Inversion

theorem Part.trans {p q t : Scheme} (hpq : Part p q) (hqt : Part q t) : Part p t := by
  induction hqt with
  | self => exact hpq
  | arg ht _ ih => exact .arg ht ih
  | field hf _ ih => exact .field hf ih
  | element _ ih => exact .element ih
  | param ht _ ih => exact .param ht ih
  | result _ ih => exact .result ih

theorem HasUnit.of_part {u : UnitScheme} {p t : Scheme} (h : HasUnit u p) (hpart : Part p t) : HasUnit u t := by
  obtain ⟨q, hq, hu⟩ := h
  exact ⟨q, hq.trans hpart, hu⟩

theorem hasUnit_number (u : UnitScheme) : HasUnit u (.number u) :=
  ⟨.number u, .self, List.mem_cons_self⟩

theorem hasUnit_apply {u : UnitScheme} {name : Name} {args : List (Arg UnitScheme Scheme)}
    (h : .unit u ∈ args) : HasUnit u (.apply name args) :=
  ⟨.apply name args, .self, List.mem_filterMap.2 ⟨.unit u, h, rfl⟩⟩

/-- There are no open records in the type. -/
def Complete (t : Scheme) : Prop :=
  ∀ fields, ¬ Part (.record fields false) t

theorem part_iff {p t : Scheme} : Part p t ↔ p = t ∨ ∃ c ∈ t.children, Part p c := by
  constructor
  · intro h
    cases h with
    | self => exact .inl rfl
    | arg ht h => exact .inr ⟨_, mem_children_apply.2 ht, h⟩
    | field hf h => exact .inr ⟨_, List.mem_map_of_mem hf, h⟩
    | element h => exact .inr ⟨_, List.mem_singleton_self _, h⟩
    | param ht h => exact .inr ⟨_, List.mem_append_left _ ht, h⟩
    | result h => exact .inr ⟨_, List.mem_append_right _ (List.mem_singleton_self _), h⟩
  · rintro (rfl | ⟨c, hc, h⟩)
    · exact .self
    · cases t with
      | primitive | number | ident => cases hc
      | apply name args => exact .arg (mem_children_apply.1 hc) h
      | record fields complete =>
          obtain ⟨f, hf, rfl⟩ := List.mem_map.1 hc
          exact .field hf h
      | array element =>
          obtain rfl := List.mem_singleton.1 hc
          exact .element h
      | function params result =>
          rcases List.mem_append.1 hc with hc | hc
          · exact .param hc h
          · obtain rfl := List.mem_singleton.1 hc
            exact .result h

mutual

/-- The type and all types in it, from the outside in and from left to right. -/
def nodes : Scheme → List Scheme
  | primitive p => [primitive p]
  | number u => [number u]
  | ident name => [ident name]
  | apply name args => apply name args :: nodesArgs args
  | record fields complete => record fields complete :: nodesFields fields
  | array element => array element :: nodes element
  | function params result => function params result :: (nodesParams params ++ nodes result)
termination_by structural t => t

/-- The types in a list of arguments. -/
def nodesArgs : List (Arg UnitScheme Scheme) → List Scheme
  | [] => []
  | .unit _ :: args => nodesArgs args
  | .type t :: args => nodes t ++ nodesArgs args
termination_by structural args => args

/-- The types in a list of fields. -/
def nodesFields : List (Field Scheme) → List Scheme
  | [] => []
  | ⟨_, t, _⟩ :: fields => nodes t ++ nodesFields fields
termination_by structural fields => fields

/-- The types in a list of parameters. -/
def nodesParams : List Scheme → List Scheme
  | [] => []
  | t :: params => nodes t ++ nodesParams params
termination_by structural params => params

end

theorem nodesArgs_eq (args : List (Arg UnitScheme Scheme)) :
    nodesArgs args = (args.filterMap Arg.type?).flatMap nodes := by
  induction args with
  | nil => rfl
  | cons a args ih =>
      cases a with
      | unit u => exact ih
      | type t => rw [nodesArgs, ih]; rfl

theorem nodesFields_eq (fields : List (Field Scheme)) :
    nodesFields fields = (fields.map Field.type).flatMap nodes := by
  induction fields with
  | nil => rfl
  | cons f fields ih => rw [nodesFields, ih]; rfl

theorem nodesParams_eq (params : List Scheme) : nodesParams params = params.flatMap nodes := by
  induction params with
  | nil => rfl
  | cons t params ih => rw [nodesParams, ih]; rfl

theorem nodes_eq (t : Scheme) : t.nodes = t :: t.children.flatMap nodes := by
  cases t with
  | primitive | number | ident => rfl
  | apply name args => rw [nodes, nodesArgs_eq]; rfl
  | record fields complete => rw [nodes, nodesFields_eq]; rfl
  | array element => simp [nodes, children]
  | function params result => simp [nodes, children, nodesParams_eq]

/-- How many types there are in a type, itself included. -/
def size (t : Scheme) : Nat :=
  t.nodes.length

theorem size_lt_of_mem_children {c t : Scheme} (h : c ∈ t.children) : c.size < t.size := by
  have hle : c.size ≤ (t.children.map size).sum := List.le_sum_of_mem (List.mem_map_of_mem h)
  have hsize : t.size = (t.children.map size).sum + 1 := by
    rw [size, nodes_eq, List.length_cons, List.length_flatMap]
    rfl
  omega

theorem Part.size_le {p t : Scheme} (h : Part p t) : p.size ≤ t.size := by
  induction t using induction_on_children with
  | step t ih =>
      rcases part_iff.1 h with rfl | ⟨c, hc, hpart⟩
      · exact le_rfl
      · exact (ih c hc hpart).trans (size_lt_of_mem_children hc).le

theorem beq_refl (t : Scheme) : t == t := by
  induction t using induction_on_children with
  | step t ih =>
      cases t with
      | primitive p => exact beq_self_eq_true p
      | number u => exact Product.beq_refl u
      | ident name => exact beq_self_eq_true name
      | apply name args =>
          refine Bool.and_eq_true_iff.2 ⟨beq_self_eq_true name, beqArgs_iff.2 (List.forall₂_same.2 fun a ha => ?_)⟩
          cases a with
          | unit u => exact .unit (Product.beq_refl u)
          | type t => exact .type (ih t (mem_children_apply.2 ha))
      | record fields complete =>
          have hfields : beqFields fields fields :=
            beqFields_iff.2 (List.forall₂_same.2 fun f hf => ⟨rfl, ih f.type (List.mem_map_of_mem hf), rfl⟩)
          exact Bool.and_eq_true_iff.2 ⟨hfields, beq_self_eq_true complete⟩
      | array element => exact ih element List.mem_cons_self
      | function params result =>
          refine Bool.and_eq_true_iff.2 ⟨beqParams_iff.2 (List.forall₂_same.2 fun t ht => ?_), ?_⟩
          · exact ih t (List.mem_append_left _ ht)
          · exact ih result (List.mem_append_right _ List.mem_cons_self)

/-- The types directly below equal types are equal. -/
theorem children_of_beq {s t : Scheme} (h : s == t) :
    Forall₂ (fun c d => c == d) s.children t.children := by
  cases s with
  | primitive | number | ident =>
      cases t with
      | primitive | number | ident => exact .nil
      | apply | record | array | function => cases h
  | apply name args =>
      cases t with
      | apply name' args' =>
          have hargs := beqArgs_iff.1 (Bool.and_eq_true_iff.1 h).2
          refine List.rel_filterMap (fun a b hab => ?_) hargs
          cases hab with
          | unit => exact .none
          | type h => exact .some h
      | primitive | number | ident | record | array | function => cases h
  | record fields complete =>
      cases t with
      | record fields' complete' =>
          have hfields := beqFields_iff.1 (Bool.and_eq_true_iff.1 h).1
          exact List.rel_map (fun f g hfg => hfg.type) hfields
      | primitive | number | ident | apply | array | function => cases h
  | array element =>
      cases t with
      | array element' => exact .cons h .nil
      | primitive | number | ident | apply | record | function => cases h
  | function params result =>
      cases t with
      | function params' result' =>
          obtain ⟨hparams, hresult⟩ := Bool.and_eq_true_iff.1 h
          exact List.rel_append (beqParams_iff.1 hparams) (.cons hresult .nil)
      | primitive | number | ident | apply | record | array => cases h

/-- All types in equal types are equal, one by one. -/
theorem nodes_of_beq {s t : Scheme} (h : s == t) : Forall₂ (fun p q => p == q) s.nodes t.nodes := by
  induction s using induction_on_children generalizing t with
  | step s ih =>
      have hchildren := forall₂_and_mem (children_of_beq h)
      rw [nodes_eq s, nodes_eq t]
      exact .cons h (List.rel_flatMap hchildren fun c d hcd => ih c hcd.1 hcd.2)

theorem size_of_beq {s t : Scheme} (h : s == t) : s.size = t.size :=
  (nodes_of_beq h).length_eq

end Scheme

end Tabula
