import Tabula.Proofs.GroundReading

/-!
# Following values without a bound

The functions that follow the values of variables take a bound on the number of steps.  On a well formed store the
bound makes no difference: each function satisfies the equation of the recursion that has no bound.  The ranks of
the variables carry the argument, since a value mentions variables of smaller rank only, and the ranks stay below
the number of variables.

The equations alone do not say that the recursion comes to an end; on a store with a cycle they would have other
solutions, or none.
-/

namespace Tabula

open Relation (ReflTransGen)

namespace Term

variable {c : Catalog} {type type' : VarId → Except ReadError GroundType}
  {unit unit' : UnitTerm → Except ReadError Measure}

theorem toGroundArgs_congr {args : List (Arg UnitTerm Term)} (hunits : ∀ u, .unit u ∈ args → unit u = unit' u)
    (htypes : ∀ t, .type t ∈ args → t.toGround c type unit = t.toGround c type' unit') :
    toGroundArgs c type unit args = toGroundArgs c type' unit' args := by
  induction args with
  | nil => rfl
  | cons a args ih =>
      have hrest := ih (fun u hu => hunits u (List.mem_cons_of_mem _ hu)) fun t ht =>
        htypes t (List.mem_cons_of_mem _ ht)
      cases a with
      | unit u => rw [toGroundArgs, toGroundArgs, hunits u List.mem_cons_self, hrest]
      | type t => rw [toGroundArgs, toGroundArgs, htypes t List.mem_cons_self, hrest]

theorem toGroundFields_congr {fields : List (Field Term)}
    (h : ∀ f ∈ fields, f.type.toGround c type unit = f.type.toGround c type' unit') :
    toGroundFields c type unit fields = toGroundFields c type' unit' fields := by
  induction fields with
  | nil => rfl
  | cons f fields ih =>
      obtain ⟨hf, hfields⟩ := List.forall_mem_cons.1 h
      rw [toGroundFields, toGroundFields, hf, ih hfields]

theorem toGroundParams_congr {params : List Term}
    (h : ∀ t ∈ params, t.toGround c type unit = t.toGround c type' unit') :
    toGroundParams c type unit params = toGroundParams c type' unit' params := by
  induction params with
  | nil => rfl
  | cons t params ih =>
      obtain ⟨ht, hparams⟩ := List.forall_mem_cons.1 h
      rw [toGroundParams, toGroundParams, ht, ih hparams]

/-- Only the variables and units that occur in a term matter to what it is read as, or to why it is not. -/
theorem toGround_congr {t : Term} (htypes : ∀ id, t.Mentions id → type id = type' id)
    (hunits : ∀ u, t.HasUnit u → unit u = unit' u) : t.toGround c type unit = t.toGround c type' unit' := by
  induction t using induction_on_children with
  | step t ih =>
      have hchild : ∀ s ∈ t.children, s.toGround c type unit = s.toGround c type' unit' := fun s hs =>
        ih s hs (fun id hid => htypes id (.inside hs hid)) fun u hu => hunits u (.inside hs hu)
      cases t with
      | var id => exact htypes id .here
      | primitive p => rfl
      | number u => rw [toGround, toGround, hunits u (.here List.mem_cons_self)]
      | tagged name args =>
          rw [toGround, toGround, toGroundArgs_congr (fun u hu => hunits u (.here (mem_units_tagged.2 hu))) fun t ht =>
            hchild t (mem_children_tagged.2 ht)]
      | record fields complete =>
          rw [toGround, toGround, toGroundFields_congr fun f hf => hchild f.type (List.mem_map_of_mem hf)]
      | array element => rw [toGround, toGround, hchild element List.mem_cons_self]
      | function params result =>
          rw [toGround, toGround, toGroundParams_congr fun t ht => hchild t (List.mem_append_left _ ht),
            hchild result (List.mem_append_right _ List.mem_cons_self)]

end Term

namespace Store

variable {s : Store}

/-- Whether the variable occurs in the term, or in the value of a variable of the term. -/
theorem WellFormed.occurs_eq (hs : s.WellFormed) (id : VarId) (t : Term) :
    s.occurs id t = t.anyVar fun j => j == id || (s.typeValue? j).any (s.occurs id) := by
  rw [Bool.eq_iff_iff, hs.occurs_iff, Term.anyVar_iff]
  constructor
  · rintro ⟨j, hj, hpath⟩
    refine ⟨j, hj, Bool.or_eq_true_iff.2 ?_⟩
    rcases hpath.cases_head with rfl | ⟨k, ⟨value, hvalue, hk⟩, hpath⟩
    · exact .inl (beq_self_eq_true j)
    · refine .inr ?_
      rw [hvalue, Option.any_some]
      exact hs.occurs_iff.2 ⟨k, hk, hpath⟩
  · rintro ⟨j, hj, hfound⟩
    rcases Bool.or_eq_true_iff.1 hfound with heq | hfound
    · exact ⟨j, hj, beq_iff_eq.1 heq ▸ .refl⟩
    · cases hvalue : s.typeValue? j with
      | none =>
          rw [hvalue] at hfound
          cases hfound
      | some value =>
          rw [hvalue, Option.any_some] at hfound
          obtain ⟨k, hk, hpath⟩ := hs.occurs_iff.1 hfound
          exact ⟨j, hj, .head ⟨value, hvalue, hk⟩ hpath⟩

/-- What a factor of a unit is replaced by, if `resolve` says it for the values of variables. -/
def factorValue (s : Store) (resolve : UnitTerm → UnitTerm) : Atom VarId → UnitTerm
  | .unit u => .single (.unit u)
  | .var id =>
      match s.unitValue? id with
      | none => .single (.var id)
      | some value => resolve value

theorem resolveWithin_succ (n : Nat) (u : UnitTerm) :
    s.resolveWithin (n + 1) u = u.bind (s.factorValue (s.resolveWithin n)) := by
  refine Product.bind_congr fun a _ => ?_
  cases a <;> rfl

/-- To resolve a unit is to resolve the values of its variables. -/
theorem WellFormed.resolve_eq (hs : s.WellFormed) (u : UnitTerm) :
    s.resolve u = u.bind (s.factorValue s.resolve) := by
  obtain ⟨rank, hedge, hrank⟩ := hs.exists_unitRank
  -- One step more makes no difference where the bound exceeds the ranks.
  have hstep : ∀ n u, (∀ id value, .var id ∈ u.atoms → s.unitValue? id = some value → rank id < n) →
      s.resolveWithin (n + 1) u = s.resolveWithin n u := by
    intro n
    induction n with
    | zero =>
        intro u hu
        rw [resolveWithin_succ, Product.bind_congr (g := Product.single) fun a ha => ?_, Product.bind_single]
        · rfl
        · cases a with
          | unit w => rfl
          | var id =>
              cases hvalue : s.unitValue? id with
              | none => simp only [factorValue, hvalue]
              | some value => exact absurd (hu id value ha hvalue) (Nat.not_lt_zero _)
    | succ n ih =>
        intro u hu
        rw [resolveWithin_succ, resolveWithin_succ]
        refine Product.bind_congr fun a ha => ?_
        cases a with
        | unit w => rfl
        | var id =>
            cases hvalue : s.unitValue? id with
            | none => simp only [factorValue, hvalue]
            | some value =>
                simp only [factorValue, hvalue]
                refine ih value fun j _ hj _ => ?_
                have hlt := hedge id j ⟨value, hvalue, hj⟩
                have hid := hu id value ha hvalue
                omega
  rw [resolve, ← hstep _ u fun id _ _ hvalue => hrank id (lt_of_unitValue? hvalue), resolveWithin_succ]
  rfl

/-- What the end of a chain of variables is read as, if `read` says it for terms other than variables. -/
def readRoot (read : Term → Except ReadError GroundType) : Term → Except ReadError GroundType
  | .var last => .error (.unsolvedVar last .type)
  | t => read t

theorem readRoot_of_ne_var {read : Term → Except ReadError GroundType} {t : Term} (h : ∀ last, t ≠ .var last) :
    readRoot read t = read t := by
  cases t with
  | var last => exact absurd rfl (h last)
  | _ => rfl

theorem readRoot_congr {read read' : Term → Except ReadError GroundType} {t : Term}
    (h : (∀ last, t ≠ .var last) → read t = read' t) : readRoot read t = readRoot read' t := by
  cases t with
  | var last => rfl
  | _ => exact h nofun

theorem readTypeWithin_succ (c : Catalog) (n : Nat) (t : Term) :
    s.readTypeWithin c (n + 1) t =
      t.toGround c (fun id => readRoot (s.readTypeWithin c n) (s.root id)) s.readUnit := by
  refine Term.toGround_congr (fun id _ => ?_) fun _ _ => rfl
  cases s.root id <;> rfl

/-- A chain that does not end in a variable ends in a term whose variables have smaller ranks. -/
theorem rank_lt_of_root {rank : VarId → Nat} (hedge : ∀ i j, s.TypeEdge i j → rank j < rank i) {id : VarId}
    (hroot : ∀ last, s.root id ≠ .var last) {j : VarId} (hj : (s.root id).Mentions j) : rank j < rank id := by
  have hwalk : s.root id = .var id ∨ ∀ j, (s.root id).Mentions j → rank j < rank id := by
    refine walk_of (t := .var id) (P := fun t => t = .var id ∨ ∀ j, t.Mentions j → rank j < rank id) ?_ (.inl rfl)
    rintro i t hvalue (heq | hlt)
    · cases heq
      exact .inr fun j hj => hedge id j ⟨t, hvalue, hj⟩
    · exact .inr fun j hj => Nat.lt_trans (hedge i j ⟨t, hvalue, hj⟩) (hlt i .here)
  exact (hwalk.resolve_left (hroot id)) j hj

/-- To read a term is to read the ends of the chains of its variables. -/
theorem WellFormed.readType_eq (hs : s.WellFormed) (c : Catalog) (t : Term) :
    s.readType c t = t.toGround c (fun id => readRoot (s.readType c) (s.root id)) s.readUnit := by
  obtain ⟨rank, hedge, hrank⟩ := hs.exists_typeRank
  have hstep : ∀ n t, (∀ id value, t.Mentions id → s.typeValue? id = some value → rank id < n) →
      s.readTypeWithin c (n + 2) t = s.readTypeWithin c (n + 1) t := by
    intro n
    induction n with
    | zero =>
        intro t ht
        rw [readTypeWithin_succ, readTypeWithin_succ]
        refine Term.toGround_congr (fun id hid => ?_) fun _ _ => rfl
        cases hvalue : s.typeValue? id with
        | none => rw [root, rootWithin_of_typeValue?_eq_none hvalue]; rfl
        | some value => exact absurd (ht id value hid hvalue) (Nat.not_lt_zero _)
    | succ n ih =>
        intro t ht
        rw [readTypeWithin_succ, readTypeWithin_succ c (n + 1)]
        refine Term.toGround_congr (fun id hid => ?_) fun _ _ => rfl
        refine readRoot_congr fun hroot => ih (s.root id) fun j _ hj _ => ?_
        have hlt := rank_lt_of_root hedge hroot hj
        cases hvalue : s.typeValue? id with
        | none => exact absurd (rootWithin_of_typeValue?_eq_none hvalue _) (hroot id)
        | some value =>
            have hid := ht id value hid hvalue
            omega
  rw [readType, ← hstep _ t fun id _ _ hvalue => hrank id (lt_of_typeValue? hvalue), readTypeWithin_succ]
  rfl

end Store

end Tabula
