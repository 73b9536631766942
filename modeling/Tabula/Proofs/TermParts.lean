import Tabula.Proofs.Atoms
import Tabula.Term.Basic

/-!
# The parts of a term

A term has terms and units directly below it.  Everything that is said about all parts of a term is said in
these two notions: induction over terms, `Term.Mentions` for the type variables of a term, `Term.Everywhere`
for properties that hold throughout a term.
-/

namespace Tabula

namespace Arg

variable {υ τ : Type}

/-- The unit, if the argument is one. -/
def unit? : Arg υ τ → Option υ
  | unit u => some u
  | type _ => none

/-- The type, if the argument is one. -/
def type? : Arg υ τ → Option τ
  | unit _ => none
  | type t => some t

theorem unit?_eq_some_iff {a : Arg υ τ} {u : υ} : a.unit? = some u ↔ a = .unit u := by
  cases a <;> simp [unit?]

theorem type?_eq_some_iff {a : Arg υ τ} {t : τ} : a.type? = some t ↔ a = .type t := by
  cases a <;> simp [type?]

end Arg

namespace Term

/-- The terms directly below a term. -/
def children : Term → List Term
  | var _ | primitive _ | number _ => []
  | tagged _ args => args.filterMap Arg.type?
  | record fields _ => fields.map Field.type
  | array element => [element]
  | function params result => params ++ [result]

/-- The units directly below a term. -/
def units : Term → List UnitTerm
  | number u => [u]
  | tagged _ args => args.filterMap Arg.unit?
  | _ => []

/-- The terms below a tagged type are its type arguments. -/
theorem mem_children_tagged {name : Name} {args : List (Arg UnitTerm Term)} {c : Term} :
    c ∈ (tagged name args).children ↔ .type c ∈ args := by
  simp [children, List.mem_filterMap, Arg.type?_eq_some_iff]

/-- The units below a tagged type are its unit arguments. -/
theorem mem_units_tagged {name : Name} {args : List (Arg UnitTerm Term)} {u : UnitTerm} :
    u ∈ (tagged name args).units ↔ .unit u ∈ args := by
  simp [units, List.mem_filterMap, Arg.unit?_eq_some_iff]

/-- Going down in a term comes to an end. -/
theorem sizeOf_lt_of_mem_children {c t : Term} (h : c ∈ t.children) : sizeOf c < sizeOf t := by
  cases t with
  | var | primitive | number => cases h
  | tagged name args =>
      have hmem := List.sizeOf_lt_of_mem (mem_children_tagged.1 h)
      simp only [tagged.sizeOf_spec, Arg.type.sizeOf_spec] at hmem ⊢
      omega
  | record fields complete =>
      obtain ⟨⟨name, type, required⟩, hf, rfl⟩ := List.mem_map.1 h
      have hmem := List.sizeOf_lt_of_mem hf
      simp only [record.sizeOf_spec, Field.mk.sizeOf_spec] at hmem ⊢
      omega
  | array element =>
      obtain rfl := List.mem_singleton.1 h
      simp only [array.sizeOf_spec]
      omega
  | function params result =>
      rcases List.mem_append.1 h with h | h
      · have hmem := List.sizeOf_lt_of_mem h
        simp only [function.sizeOf_spec]
        omega
      · obtain rfl := List.mem_singleton.1 h
        simp only [function.sizeOf_spec]
        omega

/-- A property of terms holds throughout if it goes from the terms directly below a term to the term. -/
@[elab_as_elim] theorem induction_on_children {motive : Term → Prop}
    (step : ∀ t, (∀ c ∈ t.children, motive c) → motive t) (t : Term) : motive t := by
  induction hsize : sizeOf t using Nat.strongRecOn generalizing t with
  | _ n ih => exact step t fun c hc => ih _ (hsize ▸ sizeOf_lt_of_mem_children hc) c rfl

/-- The type variable occurs in the term. -/
inductive Mentions (id : VarId) : Term → Prop where
  | here : Mentions id (.var id)
  | inside {c t : Term} (hc : c ∈ t.children) (h : Mentions id c) : Mentions id t

/-- A variable occurs in a term if it is the term or occurs in a term directly below it. -/
theorem mentions_iff {id : VarId} {t : Term} :
    t.Mentions id ↔ t = .var id ∨ ∃ c ∈ t.children, c.Mentions id := by
  constructor
  · intro h
    cases h with
    | here => exact .inl rfl
    | inside hc h => exact .inr ⟨_, hc, h⟩
  · rintro (rfl | ⟨c, hc, h⟩)
    · exact .here
    · exact .inside hc h

section AnyVar

variable (p : VarId → Bool)

/-- The search over arguments goes through the types among them. -/
theorem anyVarArgs_eq (args : List (Arg UnitTerm Term)) :
    anyVarArgs p args = (args.filterMap Arg.type?).any (anyVar p) := by
  induction args with
  | nil => rfl
  | cons a args ih =>
      cases a with
      | unit u => exact ih
      | type t => rw [anyVarArgs, ih]; rfl

theorem anyVarFields_eq (fields : List (Field Term)) :
    anyVarFields p fields = (fields.map Field.type).any (anyVar p) := by
  induction fields with
  | nil => rfl
  | cons f fields ih => rw [anyVarFields, ih]; rfl

theorem anyVarParams_eq (params : List Term) : anyVarParams p params = params.any (anyVar p) := by
  induction params with
  | nil => rfl
  | cons t params ih => rw [anyVarParams, ih]; rfl

/-- Off the variables, the search goes on below the term. -/
theorem anyVar_eq_any_children {t : Term} (h : ∀ id, t ≠ .var id) :
    t.anyVar p = t.children.any (anyVar p) := by
  cases t with
  | var id => exact absurd rfl (h id)
  | primitive | number => rfl
  | tagged name args => exact anyVarArgs_eq p args
  | record fields complete => exact anyVarFields_eq p fields
  | array element => simp [anyVar, children]
  | function params result => simp [anyVar, children, anyVarParams_eq]

end AnyVar

/-- A search over the variables of a term looks at the variables that occur in it. -/
theorem anyVar_iff {p : VarId → Bool} {t : Term} :
    t.anyVar p = true ↔ ∃ id, t.Mentions id ∧ p id = true := by
  induction t using induction_on_children with
  | step t ih =>
      by_cases hvar : ∃ id, t = .var id
      · obtain ⟨id, rfl⟩ := hvar
        constructor
        · exact fun h => ⟨id, .here, h⟩
        · rintro ⟨id', h, hp⟩
          cases h with
          | here => exact hp
          | inside hc => cases hc
      · rw [anyVar_eq_any_children p fun id h => hvar ⟨id, h⟩, List.any_eq_true]
        constructor
        · rintro ⟨c, hc, h⟩
          obtain ⟨id, hid, hp⟩ := (ih c hc).1 h
          exact ⟨id, .inside hc hid, hp⟩
        · rintro ⟨id, h, hp⟩
          rcases mentions_iff.1 h with heq | ⟨c, hc, h⟩
          · exact absurd ⟨id, heq⟩ hvar
          · exact ⟨c, hc, (ih c hc).2 ⟨id, h, hp⟩⟩

/-- Every part of the term has the property `P`, and every unit in it the property `Q`. -/
inductive Everywhere (P : Term → Prop) (Q : UnitTerm → Prop) : Term → Prop where
  | intro {t : Term} (hnode : P t) (hunits : ∀ u ∈ t.units, Q u)
      (hchildren : ∀ c ∈ t.children, Everywhere P Q c) : Everywhere P Q t

namespace Everywhere

variable {P P' : Term → Prop} {Q Q' : UnitTerm → Prop} {t : Term}

theorem node (h : Everywhere P Q t) : P t := by
  cases h
  assumption

theorem unit (h : Everywhere P Q t) : ∀ u ∈ t.units, Q u := by
  cases h
  assumption

theorem child (h : Everywhere P Q t) : ∀ c ∈ t.children, Everywhere P Q c := by
  cases h
  assumption

/-- Weaker properties hold throughout as well. -/
theorem imp (h : Everywhere P Q t) (hP : ∀ t, P t → P' t) (hQ : ∀ u, Q u → Q' u) : Everywhere P' Q' t := by
  induction h with
  | intro hnode hunits _ ih => exact .intro (hP _ hnode) (fun u hu => hQ u (hunits u hu)) ih

end Everywhere

section Constructors

variable {P : Term → Prop} {Q : UnitTerm → Prop}

/-- A property that holds throughout a term holds of the term and throughout the terms below it. -/
theorem everywhere_iff {t : Term} :
    t.Everywhere P Q ↔ P t ∧ (∀ u ∈ t.units, Q u) ∧ ∀ c ∈ t.children, c.Everywhere P Q :=
  ⟨fun h => ⟨h.node, h.unit, h.child⟩, fun ⟨hnode, hunits, hchildren⟩ => .intro hnode hunits hchildren⟩

@[simp] theorem everywhere_var {id : VarId} : (var id).Everywhere P Q ↔ P (var id) := by
  simp [everywhere_iff (t := var id), units, children]

@[simp] theorem everywhere_primitive {p : Primitive} : (primitive p).Everywhere P Q ↔ P (primitive p) := by
  simp [everywhere_iff (t := primitive p), units, children]

@[simp] theorem everywhere_number {u : UnitTerm} : (number u).Everywhere P Q ↔ P (number u) ∧ Q u := by
  simp [everywhere_iff (t := number u), units, children]

@[simp] theorem everywhere_tagged {name : Name} {args : List (Arg UnitTerm Term)} :
    (tagged name args).Everywhere P Q ↔ P (tagged name args) ∧ (∀ u, .unit u ∈ args → Q u) ∧
      ∀ t, .type t ∈ args → t.Everywhere P Q := by
  simp only [everywhere_iff (t := tagged name args), mem_units_tagged, mem_children_tagged]

@[simp] theorem everywhere_record {fields : List (Field Term)} {complete : Bool} :
    (record fields complete).Everywhere P Q ↔ P (record fields complete) ∧
      ∀ f ∈ fields, f.type.Everywhere P Q := by
  simp [everywhere_iff (t := record fields complete), units, children]

@[simp] theorem everywhere_array {element : Term} :
    (array element).Everywhere P Q ↔ P (array element) ∧ element.Everywhere P Q := by
  simp [everywhere_iff (t := array element), units, children]

@[simp] theorem everywhere_function {params : List Term} {result : Term} :
    (function params result).Everywhere P Q ↔ P (function params result) ∧
      (∀ t ∈ params, t.Everywhere P Q) ∧ result.Everywhere P Q := by
  simp [everywhere_iff (t := function params result), units, children, or_imp, forall_and]

end Constructors

end Term

/-- All variables of the unit are below `n`. -/
def UnitTerm.Below (n : Nat) (u : UnitTerm) : Prop :=
  ∀ id, Atom.var id ∈ u.atoms → id < n

/-- All type variables of the term are below `m`, all unit variables below `n`. -/
def Term.Below (m n : Nat) : Term → Prop :=
  Term.Everywhere (fun t => ∀ id, t = .var id → id < m) (UnitTerm.Below n)

/-- A bound can be raised. -/
theorem UnitTerm.Below.mono {n n' : Nat} {u : UnitTerm} (h : UnitTerm.Below n u) (hn : n ≤ n') :
    UnitTerm.Below n' u :=
  fun id hid => Nat.lt_of_lt_of_le (h id hid) hn

/-- A unit has no variables but those of the factors that it is made of. -/
theorem UnitTerm.below_ofFactors {n : Nat} {fs : List (Atom VarId × Exponent)}
    (h : ∀ f ∈ fs, ∀ id, f.1 = .var id → id < n) : UnitTerm.Below n (.ofFactors fs) := by
  intro id hid
  obtain ⟨f, hf, hvar⟩ := List.mem_map.1 (Product.mem_atoms_ofFactors hid)
  exact h f hf id hvar

theorem Term.Below.mono {m m' n n' : Nat} {t : Term} (h : t.Below m n) (hm : m ≤ m') (hn : n ≤ n') :
    t.Below m' n' :=
  h.imp (fun _ h id hid => Nat.lt_of_lt_of_le (h id hid) hm) fun _ h => h.mono hn

/-- A variable that occurs in the term is below the bound. -/
theorem Term.Below.lt_of_mentions {m n : Nat} {t : Term} (h : t.Below m n) {id : VarId} (hid : t.Mentions id) :
    id < m := by
  induction hid with
  | here => exact h.node id rfl
  | inside hc _ ih => exact ih (h.child _ hc)

end Tabula
