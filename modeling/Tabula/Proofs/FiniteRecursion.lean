import Tabula.Proofs.FollowingValues
import Tabula.Proofs.LevelBound

/-!
# The recursions on stores are finite

The functions that follow the values of a store are given a bound on the number of steps or levels.  The rules in this
module tell the same recursions without a bound.  A rule has a premise for each call that is made on the way, so a
derivation is the tree of all calls; it is finite, since it is built from the rules and a term mentions finitely many
variables.  A call that has a derivation therefore comes to an end, and the derivation says with which result.

On a store that comes about by operations every call has exactly one derivable result, the one that the bounded
function computes.  Two arguments carry this:

* A value mentions variables of smaller rank only, which ends the recursions that follow values.
* Unification replaces variables by values, which are larger, and changes the store as it goes.  Its number of levels
  was shown to be enough, and a run that does not use up its levels can be read as a derivation, call by call.

A search that meets a cycle has no derivation, whatever the bounded function returns there.

The rules make all calls that the recursion can make: a search goes on when the variable was found, and reading goes on
after an error.  How many calls are made is not said.
-/

namespace Tabula

open Relation (TransGen)

theorem Term.anyVar_congr {p q : VarId → Bool} {t : Term} (h : ∀ id, t.Mentions id → p id = q id) :
    t.anyVar p = t.anyVar q := by
  rw [Bool.eq_iff_iff, anyVar_iff, anyVar_iff]
  exact exists_congr fun id => and_congr_right fun hid => by rw [h id hid]

/-- Read a unit in which no variable has a value. -/
def UnitTerm.readResolved (u : UnitTerm) : Except ReadError Measure :=
  match UnitTerm.toMeasure? u with
  | some m => .ok m
  | none => .error (.unsolvedVar (((UnitTerm.vars u).head?.map Prod.fst).getD 0) .unit)

namespace Attempt

/-- An error is reported under the name of the field, if there is one. -/
def inField (field : Option Name) (a : Attempt) : Attempt :=
  ⟨a.store, a.result.mapError fun err => field.elim err fun name => .inField name err⟩

@[simp] theorem inField_none (a : Attempt) : a.inField none = a := by
  obtain ⟨store, result⟩ := a
  cases result <;> rfl

/-- The attempt to make two units equal, which changes the store only if it succeeds. -/
def ofUnits (s : Store) : Except UnifyError Store → Attempt
  | .ok s' => ⟨s', .ok ()⟩
  | .error err => ⟨s, .error err⟩

/-- The attempt to give a variable the value `t`, in which it was found or not. -/
def ofSearch (s : Store) (id : VarId) (t : Term) (found : Bool) : Attempt :=
  if found then ⟨s, .error (.infiniteType id t)⟩ else ⟨s.assignType id t, .ok ()⟩

end Attempt

namespace Store

/-- Make two units equal in which no variable has a value. -/
def unifyResolved (s : Store) (expected found : UnitTerm) : Except UnifyError Store :=
  match expected.divide? found with
  | none => .error (.unitMismatch expected found)
  | some quotient =>
      if quotient.isOne then .ok s
      else
        match UnitTerm.solve? quotient with
        | none => .error (.unitMismatch expected found)
        | some (id, value) => .ok (s.assignUnit id value)

theorem readUnit_eq (s : Store) (u : UnitTerm) : s.readUnit u = UnitTerm.readResolved (s.resolve u) :=
  rfl

theorem unifyUnits_eq (s : Store) (u v : UnitTerm) :
    s.unifyUnits u v = s.unifyResolved (s.resolve u) (s.resolve v) :=
  rfl

section Rules

variable (s : Store)

/-- The chain of variables that starts with the variable ends in the term. -/
inductive Follows : VarId → Term → Prop where
  | free {id : VarId} (h : s.typeValue? id = none) : Follows id (.var id)
  | link {id other : VarId} {t : Term} (h : s.typeValue? id = some (.var other)) (hrest : Follows other t) :
      Follows id t
  | value {id : VarId} {t : Term} (h : s.typeValue? id = some t) (ht : ∀ other, t ≠ .var other) : Follows id t

/-- The search for the variable `id` in the term ends with the answer. -/
inductive Searches (id : VarId) : Term → Bool → Prop where
  | intro {t : Term} (search : Term → Bool)
      (hvalues : ∀ j value, t.Mentions j → s.typeValue? j = some value → Searches id value (search value)) :
      Searches id t (t.anyVar fun j => j == id || (s.typeValue? j).any search)

/-- Replacing the variables of the unit by their values ends in the second unit. -/
inductive Resolves : UnitTerm → UnitTerm → Prop where
  | intro {u : UnitTerm} (resolve : UnitTerm → UnitTerm)
      (hvalues : ∀ id value, .var id ∈ u.atoms → s.unitValue? id = some value → Resolves value (resolve value)) :
      Resolves u (u.bind (s.factorValue resolve))

/-- Reading the term back ends with the result. -/
inductive Reads (c : Catalog) : Term → Except ReadError GroundType → Prop where
  | intro {t : Term} (root : VarId → Term) (read : Term → Except ReadError GroundType)
      (resolve : UnitTerm → UnitTerm) (hroots : ∀ id, t.Mentions id → s.Follows id (root id))
      (hreads : ∀ id, t.Mentions id → (∀ last, root id ≠ .var last) → Reads c (root id) (read (root id)))
      (hunits : ∀ u, t.HasUnit u → s.Resolves u (resolve u)) :
      Reads c t (t.toGround c (fun id => readRoot read (root id)) fun u => UnitTerm.readResolved (resolve u))

/-- Reading back what the name is bound to ends with the result. -/
inductive ReadsArg (c : Catalog) (name : Name) :
    Arg UnitTerm Term → Except ReadError (Arg Measure GroundType) → Prop where
  | unit {u v : UnitTerm} (h : s.Resolves u v) :
      ReadsArg c name (.unit u) (((UnitTerm.readResolved v).mapError (nameUnsolved name .unit)).map .unit)
  | type {t : Term} {r : Except ReadError GroundType} (h : s.Reads c t r) :
      ReadsArg c name (.type t) ((r.mapError (nameUnsolved name .type)).map .type)

/-- Reading back the entries one after the other ends with the result; `solution` holds the values before them. -/
inductive SolvesFrom (c : Catalog) :
    Substitution → List (Name × Arg UnitTerm Term) → Except ReadError Substitution → Prop where
  | done {solution : Substitution} : SolvesFrom c solution [] (.ok solution)
  | next {solution : Substitution} {entry : Name × Arg UnitTerm Term} {entries : List (Name × Arg UnitTerm Term)}
      {value : Arg Measure GroundType} {r : Except ReadError Substitution}
      (hread : s.ReadsArg c entry.1 entry.2 (.ok value))
      (hrest : SolvesFrom c (solution.insert entry.1 value) entries r) : SolvesFrom c solution (entry :: entries) r
  | stop {solution : Substitution} {entry : Name × Arg UnitTerm Term} {entries : List (Name × Arg UnitTerm Term)}
      {err : ReadError} (hread : s.ReadsArg c entry.1 entry.2 (.error err)) :
      SolvesFrom c solution (entry :: entries) (.error err)

/-- Reading back the values of all names ends with the result. -/
def Solves (c : Catalog) (b : TermBindings) : Except ReadError Substitution → Prop :=
  s.SolvesFrom c .empty b.entries

/-- Making two units equal ends with the result. -/
inductive UnifiesUnits : UnitTerm → UnitTerm → Except UnifyError Store → Prop where
  | intro {u v u' v' : UnitTerm} (hu : s.Resolves u u') (hv : s.Resolves v v') :
      UnifiesUnits u v (s.unifyResolved u' v')

/-- The outermost variable of the term, if it is one, is followed to its end. -/
inductive Walks : Term → Term → Prop where
  | var {id : VarId} {t : Term} (h : s.Follows id t) : Walks (.var id) t
  | other {t : Term} (h : ∀ id, t ≠ .var id) : Walks t t

/-- The terms, once their outermost variables are followed, demand this in order to be equal. -/
inductive Demands : Term → Term → Demand → Prop where
  | intro {e f e' f' : Term} (he : s.Walks e e') (hf : s.Walks f f') : Demands e f (e'.demand f')

end Rules

/-- What is to be done about equations: to satisfy one, or several one after the other. -/
inductive Work where
  | one (q : Equation)
  | all (qs : List Equation)

/-- The work on a store comes to an end. -/
inductive Works : Store → Work → Attempt → Prop where
  | done {s : Store} : Works s (.all []) ⟨s, .ok ()⟩
  | next {s s' : Store} {q : Equation} {qs : List Equation} {a : Attempt} (hfirst : Works s (.one q) ⟨s', .ok ()⟩)
      (hrest : Works s' (.all qs) a) : Works s (.all (q :: qs)) a
  | stop {s s' : Store} {q : Equation} {qs : List Equation} {err : UnifyError}
      (hfirst : Works s (.one q) ⟨s', .error err⟩) : Works s (.all (q :: qs)) ⟨s', .error err⟩
  | failure {s : Store} {err : UnifyError} : Works s (.one (.failure err)) ⟨s, .error err⟩
  | units {s : Store} {u v : UnitTerm} {r : Except UnifyError Store} (h : s.UnifiesUnits u v r) :
      Works s (.one (.units u v)) (.ofUnits s r)
  | value {s : Store} {field : Option Name} {e f t : Term} {id : VarId} {found : Bool}
      (hdemand : s.Demands e f (.value id t)) (hsearch : s.Searches id t found) :
      Works s (.one (.types field e f)) ((Attempt.ofSearch s id t found).inField field)
  | parts {s : Store} {field : Option Name} {e f : Term} {qs : List Equation} {a : Attempt}
      (hdemand : s.Demands e f (.equations qs)) (hparts : Works s (.all qs) a) :
      Works s (.one (.types field e f)) (a.inField field)

/-- Making two terms equal comes to an end. -/
def Unifies (s : Store) (e f : Term) : Attempt → Prop :=
  Works s (.one (.types none e f))

section Unique

variable {s : Store}

/-! A call has at most one result, on any store. -/

theorem Follows.unique {id : VarId} {t t' : Term} (h : s.Follows id t) (h' : s.Follows id t') : t = t' := by
  induction h with
  | free hnone =>
      cases h' with
      | free _ => rfl
      | link hsome | value hsome => cases hnone.symm.trans hsome
  | link hvar _ ih =>
      cases h' with
      | free hnone => cases hnone.symm.trans hvar
      | link hvar' hrest =>
          cases hvar.symm.trans hvar'
          exact ih hrest
      | value hvar' ht =>
          cases hvar.symm.trans hvar'
          exact absurd rfl (ht _)
  | value hvalue ht =>
      cases h' with
      | free hnone => cases hnone.symm.trans hvalue
      | link hvar _ =>
          cases hvalue.symm.trans hvar
          exact absurd rfl (ht _)
      | value hvalue' _ => exact Option.some.inj (hvalue.symm.trans hvalue')

theorem Searches.unique {id : VarId} {t : Term} {found found' : Bool} (h : s.Searches id t found)
    (h' : s.Searches id t found') : found = found' := by
  induction h generalizing found' with
  | @intro t search _ ih =>
      cases h' with
      | intro search' hvalues' =>
          refine Term.anyVar_congr fun j hj => ?_
          cases hvalue : s.typeValue? j with
          | none => rfl
          | some value =>
              rw [Option.any_some, Option.any_some, ih j value hj hvalue (hvalues' j value hj hvalue)]

theorem Resolves.unique {u v v' : UnitTerm} (h : s.Resolves u v) (h' : s.Resolves u v') : v = v' := by
  induction h generalizing v' with
  | @intro u resolve _ ih =>
      cases h' with
      | intro resolve' hvalues' =>
          refine Product.bind_congr fun a ha => ?_
          cases a with
          | unit w => rfl
          | var id =>
              cases hvalue : s.unitValue? id with
              | none => simp only [factorValue, hvalue]
              | some value => simp only [factorValue, hvalue, ih id value ha hvalue (hvalues' id value ha hvalue)]

theorem Reads.unique {c : Catalog} {t : Term} {r r' : Except ReadError GroundType} (h : s.Reads c t r)
    (h' : s.Reads c t r') : r = r' := by
  induction h generalizing r' with
  | @intro t root read resolve hroots _ hunits ih =>
      cases h' with
      | intro root' read' resolve' hroots' hreads' hunits' =>
          refine Term.toGround_congr (fun id hid => ?_) fun u hu => ?_
          · have hroot : root id = root' id := (hroots id hid).unique (hroots' id hid)
            rw [← hroot]
            exact readRoot_congr fun hlast => ih id hid hlast (hroot ▸ hreads' id hid (hroot ▸ hlast))
          · rw [(hunits u hu).unique (hunits' u hu)]

theorem ReadsArg.unique {c : Catalog} {name : Name} {a : Arg UnitTerm Term}
    {r r' : Except ReadError (Arg Measure GroundType)} (h : s.ReadsArg c name a r) (h' : s.ReadsArg c name a r') :
    r = r' := by
  cases h with
  | unit hv =>
      cases h' with
      | unit hv' => rw [hv.unique hv']
  | type hr =>
      cases h' with
      | type hr' => rw [hr.unique hr']

theorem SolvesFrom.unique {c : Catalog} {solution : Substitution} {entries : List (Name × Arg UnitTerm Term)}
    {r r' : Except ReadError Substitution} (h : s.SolvesFrom c solution entries r)
    (h' : s.SolvesFrom c solution entries r') : r = r' := by
  induction h with
  | done =>
      cases h'
      rfl
  | next hread _ ih =>
      cases h' with
      | next hread' hrest' =>
          cases hread.unique hread'
          exact ih hrest'
      | stop hread' => cases hread.unique hread'
  | stop hread =>
      cases h' with
      | next hread' _ => cases hread.unique hread'
      | stop hread' =>
          cases hread.unique hread'
          rfl

theorem UnifiesUnits.unique {u v : UnitTerm} {r r' : Except UnifyError Store} (h : s.UnifiesUnits u v r)
    (h' : s.UnifiesUnits u v r') : r = r' := by
  obtain ⟨hu, hv⟩ := h
  obtain ⟨hu', hv'⟩ := h'
  rw [hu.unique hu', hv.unique hv']

theorem Walks.unique {t t' t'' : Term} (h : s.Walks t t') (h' : s.Walks t t'') : t' = t'' := by
  cases h with
  | var hfollows =>
      cases h' with
      | var hfollows' => exact hfollows.unique hfollows'
      | other hne => exact absurd rfl (hne _)
  | other hne =>
      cases h' with
      | var _ => exact absurd rfl (hne _)
      | other _ => rfl

theorem Demands.unique {e f : Term} {δ δ' : Demand} (h : s.Demands e f δ) (h' : s.Demands e f δ') : δ = δ' := by
  obtain ⟨he, hf⟩ := h
  obtain ⟨he', hf'⟩ := h'
  rw [he.unique he', hf.unique hf']

theorem Works.unique {work : Work} {a a' : Attempt} (h : Works s work a) (h' : Works s work a') : a = a' := by
  induction h generalizing a' with
  | done =>
      cases h'
      rfl
  | next _ _ ihfirst ihrest =>
      cases h' with
      | next hfirst' hrest' =>
          cases ihfirst hfirst'
          exact ihrest hrest'
      | stop hfirst' => cases ihfirst hfirst'
  | stop _ ih =>
      cases h' with
      | next hfirst' _ => cases ih hfirst'
      | stop hfirst' => exact ih hfirst'
  | failure =>
      cases h'
      rfl
  | units hr =>
      cases h' with
      | units hr' => rw [hr.unique hr']
  | value hdemand hsearch =>
      cases h' with
      | value hdemand' hsearch' =>
          cases hdemand.unique hdemand'
          rw [hsearch.unique hsearch']
      | parts hdemand' _ => cases hdemand.unique hdemand'
  | parts hdemand _ ih =>
      cases h' with
      | value hdemand' _ => cases hdemand.unique hdemand'
      | parts hdemand' hparts' =>
          cases hdemand.unique hdemand'
          rw [ih hparts']

end Unique

section Follow

variable {s : Store}

/-- What holds if it holds of the values of all variables that are mentioned holds of everything, if the values mention
variables of smaller rank only. -/
theorem induction_of_rank {α : Type} {mentions : α → VarId → Prop} {value? : VarId → Option α} {rank : VarId → Nat}
    {n : Nat} (hedge : ∀ i j, (∃ x, value? i = some x ∧ mentions x j) → rank j < rank i)
    (hrank : ∀ i x, value? i = some x → rank i < n) {motive : α → Prop}
    (step : ∀ x, (∀ i y, mentions x i → value? i = some y → motive y) → motive x) (x : α) : motive x := by
  have hbelow : ∀ n x, (∀ i y, mentions x i → value? i = some y → rank i < n) → motive x := by
    intro n
    induction n with
    | zero => exact fun x hx => step x fun i y hi hy => absurd (hx i y hi hy) (Nat.not_lt_zero _)
    | succ n ih =>
        intro x hx
        refine step x fun i y hi hy => ih y fun j _ hj _ => ?_
        have hlt := hedge i j ⟨y, hy, hj⟩
        have hi := hx i y hi hy
        omega
  exact hbelow n x fun i y _ hy => hrank i y hy

theorem WellFormed.induction_on_values (hs : s.WellFormed) {motive : Term → Prop}
    (step : ∀ t, (∀ id value, t.Mentions id → s.typeValue? id = some value → motive value) → motive t) (t : Term) :
    motive t := by
  obtain ⟨rank, hedge, hrank⟩ := hs.exists_typeRank
  exact induction_of_rank hedge (fun id _ hvalue => hrank id (lt_of_typeValue? hvalue)) step t

theorem WellFormed.induction_on_unitValues (hs : s.WellFormed) {motive : UnitTerm → Prop}
    (step : ∀ u, (∀ id value, .var id ∈ u.atoms → s.unitValue? id = some value → motive value) → motive u)
    (u : UnitTerm) : motive u := by
  obtain ⟨rank, hedge, hrank⟩ := hs.exists_unitRank
  exact induction_of_rank hedge (fun id _ hvalue => hrank id (lt_of_unitValue? hvalue)) step u

theorem WellFormed.follows (hs : s.WellFormed) (id : VarId) : s.Follows id (s.root id) := by
  have hvar : ∀ (t : Term) id, t = .var id → s.Follows id (s.root id) := by
    intro t
    induction t using hs.induction_on_values with
    | step t ih =>
        rintro id rfl
        cases hvalue : s.typeValue? id with
        | none =>
            have hroot : s.root id = .var id := rootWithin_of_typeValue?_eq_none hvalue _
            rw [hroot]
            exact .free hvalue
        | some value =>
            have hroot : s.root id = s.walk value := hs.walk_var hvalue
            rw [hroot]
            cases value with
            | var other => exact .link hvalue (ih id _ .here hvalue other rfl)
            | _ => exact .value hvalue nofun
  exact hvar _ id rfl

theorem WellFormed.searches (hs : s.WellFormed) (id : VarId) (t : Term) : s.Searches id t (s.occurs id t) := by
  induction t using hs.induction_on_values with
  | step t ih =>
      rw [hs.occurs_eq]
      exact .intro (s.occurs id) ih

theorem WellFormed.resolves (hs : s.WellFormed) (u : UnitTerm) : s.Resolves u (s.resolve u) := by
  induction u using hs.induction_on_unitValues with
  | step u ih =>
      rw [hs.resolve_eq]
      exact .intro s.resolve ih

/-- A search that meets a cycle does not come to an end. -/
theorem not_searches_of_cycle {id i : VarId} {t : Term} {found : Bool} (hi : t.Mentions i)
    (hcycle : TransGen s.TypeEdge i i) : ¬ s.Searches id t found := by
  intro h
  induction h generalizing i with
  | intro search _ ih =>
      obtain ⟨k, hedge, hpath⟩ := TransGen.head'_iff.1 hcycle
      obtain ⟨value, hvalue, hk⟩ := hedge
      exact ih i value hi hvalue hk (.tail' hpath ⟨value, hvalue, hk⟩)

/-- To read a variable is to read the end of its chain. -/
theorem Reads.of_var {c : Catalog} {id : VarId} {t : Term} {r : Except ReadError GroundType}
    (h : s.Reads c (.var id) r) (hfollows : s.Follows id t) (ht : ∀ last, t ≠ .var last) : s.Reads c t r := by
  generalize hvar : Term.var id = t' at h
  cases h with
  | intro root read resolve hroots hreads hunits =>
      subst hvar
      have hroot : root id = t := (hroots id .here).unique hfollows
      have hread := hreads id .here (hroot ▸ ht)
      rw [hroot] at hread
      rwa [Term.toGround, hroot, readRoot_of_ne_var ht]

theorem WellFormed.reads (hs : s.WellFormed) (c : Catalog) (t : Term) : s.Reads c t (s.readType c t) := by
  induction t using hs.induction_on_values with
  | step t ih =>
      rw [hs.readType_eq, funext s.readUnit_eq]
      refine .intro s.root (s.readType c) s.resolve (fun id _ => hs.follows id) (fun id hid hroot => ?_)
        fun u _ => hs.resolves u
      -- The induction gives the value of the variable, and the call is made on the end of the chain behind it.
      cases hvalue : s.typeValue? id with
      | none => exact absurd (rootWithin_of_typeValue?_eq_none hvalue _) (hroot id)
      | some value =>
          have hread := ih id value hid hvalue
          have hwalk : s.root id = s.walk value := hs.walk_var hvalue
          cases value with
          | var other =>
              have hother : s.root id = s.root other := hwalk
              rw [hs.readType_eq c (.var other), Term.toGround, ← hother, readRoot_of_ne_var hroot] at hread
              exact hread.of_var (hother ▸ hs.follows other) hroot
          | _ => rwa [hwalk]

theorem WellFormed.readsArg (hs : s.WellFormed) (c : Catalog) (name : Name) (a : Arg UnitTerm Term) :
    s.ReadsArg c name a (s.readArg c name a) := by
  cases a with
  | unit u =>
      rw [readArg, readUnit_eq]
      exact .unit (hs.resolves u)
  | type t => exact .type (hs.reads c t)

theorem WellFormed.solves (hs : s.WellFormed) (c : Catalog) (b : TermBindings) : s.Solves c b (s.solve c b) := by
  have hfrom : ∀ (entries : List (Name × Arg UnitTerm Term)) (solution : Substitution),
      s.SolvesFrom c solution entries (entries.foldlM
        (fun solution entry => do return solution.insert entry.1 (← s.readArg c entry.1 entry.2)) solution) := by
    intro entries
    induction entries with
    | nil => exact fun _ => .done
    | cons entry entries ih =>
        intro solution
        have hread := hs.readsArg c entry.1 entry.2
        rw [List.foldlM_cons]
        cases hr : s.readArg c entry.1 entry.2 with
        | ok value =>
            rw [hr] at hread
            exact .next hread (ih _)
        | error err =>
            rw [hr] at hread
            exact .stop hread
  exact hfrom b.entries .empty

theorem WellFormed.unifiesUnits (hs : s.WellFormed) (u v : UnitTerm) : s.UnifiesUnits u v (s.unifyUnits u v) := by
  rw [unifyUnits_eq]
  exact .intro (hs.resolves u) (hs.resolves v)

theorem WellFormed.walks (hs : s.WellFormed) (t : Term) : s.Walks t (s.walk t) := by
  cases t with
  | var id => exact .var (hs.follows id)
  | _ => exact .other nofun

theorem WellFormed.demands (hs : s.WellFormed) (e f : Term) : s.Demands e f ((s.walk e).demand (s.walk f)) :=
  .intro (hs.walks e) (hs.walks f)

end Follow

end Store

namespace Attempt

/-- What a run leaves behind. -/
def ofRun : EStateM.Result UnifyError Store Unit → Attempt
  | .ok _ s => ⟨s, .ok ()⟩
  | .error err s => ⟨s, .error err⟩

/-- The levels were not used up. -/
def Finished (a : Attempt) : Prop :=
  ∀ err, a.result = .error err → err.isCyclic = false

theorem ofRun_satisfy_types (unify : Term → Term → UnifyM Unit) (field : Option Name) (e f : Term) (s : Store) :
    ofRun (UnifyM.satisfy unify (.types field e f) s) = (ofRun (unify e f s)).inField field := by
  cases field with
  | none =>
      rw [UnifyM.satisfy]
      cases unify e f s <;> rfl
  | some name =>
      rw [UnifyM.satisfy, EStateM.adaptExcept]
      cases unify e f s <;> rfl

theorem finished_of_inField {field : Option Name} {a : Attempt} (h : (a.inField field).Finished) : a.Finished := by
  intro err herr
  cases field with
  | none =>
      refine h err ?_
      rw [inField, herr]
      rfl
  | some name =>
      refine h (.inField name err) ?_
      rw [inField, herr]
      rfl

end Attempt

namespace Store

section Levels

variable {levels : Nat} (ih : ∀ {field e f s}, Pending.WellFormed ⟨[.types field e f], s⟩ →
  (Attempt.ofRun (UnifyM.within levels e f s)).Finished →
  Works s (.one (.types field e f)) ((Attempt.ofRun (UnifyM.within levels e f s)).inField field))
include ih

theorem works_satisfy {q : Equation} {s : Store} (hw : Pending.WellFormed ⟨[q], s⟩)
    (h : (Attempt.ofRun (UnifyM.satisfy (UnifyM.within levels) q s)).Finished) :
    Works s (.one q) (.ofRun (UnifyM.satisfy (UnifyM.within levels) q s)) := by
  cases q with
  | types field e f =>
      rw [Attempt.ofRun_satisfy_types] at h ⊢
      exact ih hw (Attempt.finished_of_inField h)
  | units u v =>
      have hunits := hw.store.unifiesUnits u v
      rw [UnifyM.satisfy_units]
      cases hr : s.unifyUnits u v with
      | ok s' =>
          rw [hr] at hunits
          exact .units hunits
      | error err =>
          rw [hr] at hunits
          exact .units hunits
  | failure err => exact .failure

theorem works_satisfyAll {qs : List Equation} {s : Store} (hw : Pending.WellFormed ⟨qs, s⟩)
    (h : (Attempt.ofRun (UnifyM.satisfyAll (UnifyM.within levels) qs s)).Finished) :
    Works s (.all qs) (.ofRun (UnifyM.satisfyAll (UnifyM.within levels) qs s)) := by
  induction qs generalizing s with
  | nil => exact .done
  | cons q qs ihq =>
      have hends := Pending.endsIn_satisfy (Pending.endsIn_within levels) q qs s
      have hfirst := works_satisfy ih (q := q) (s := s)
        ⟨hw.store, List.forall_mem_singleton.2 (hw.equations q List.mem_cons_self)⟩
      have hrun : UnifyM.satisfyAll (UnifyM.within levels) (q :: qs) s = EStateM.bind
        (UnifyM.satisfy (UnifyM.within levels) q) (fun _ => UnifyM.satisfyAll (UnifyM.within levels) qs) s := rfl
      rw [hrun, EStateM.bind] at h ⊢
      cases hr : UnifyM.satisfy (UnifyM.within levels) q s with
      | ok a s' =>
          -- The equations that wait are satisfied on the store that the first one leaves, which is well formed again.
          rw [hr] at hends hfirst h
          exact .next (hfirst nofun) (ihq (Pending.Leads.wellFormed hends hw).1 h)
      | error err s' =>
          rw [hr] at hfirst h
          exact .stop (hfirst h)

end Levels

/-- A run that does not use up its levels can be read as a derivation.  The induction is on the levels; an error of a
call is the error of the whole run, so no call has used them up. -/
theorem works_within (levels : Nat) {field : Option Name} {e f : Term} {s : Store}
    (hw : Pending.WellFormed ⟨[.types field e f], s⟩) (h : (Attempt.ofRun (UnifyM.within levels e f s)).Finished) :
    Works s (.one (.types field e f)) ((Attempt.ofRun (UnifyM.within levels e f s)).inField field) := by
  induction levels generalizing field e f s with
  | zero => cases h .cyclicStore rfl
  | succ levels ih =>
      have hdemands := hw.store.demands e f
      rw [UnifyM.within_succ] at h ⊢
      cases hdemand : (s.walk e).demand (s.walk f) with
      | value id t =>
          rw [hdemand] at hdemands
          have hrun : Attempt.ofRun (UnifyM.meet (UnifyM.within levels) (.value id t) s) =
              .ofSearch s id t (s.occurs id t) := by
            rw [UnifyM.meet_value, Attempt.ofSearch]
            split <;> rfl
          rw [hrun]
          exact .value hdemands (hw.store.searches id t)
      | equations qs =>
          rw [hdemand] at h hdemands
          have hstep : Pending.Step ⟨[.types field e f], s⟩ ⟨qs ++ [], s⟩ := .parts hdemand
          rw [List.append_nil] at hstep
          exact .parts hdemands (works_satisfyAll ih (hstep.wellFormed hw).1 h)

theorem WellFormed.unifies {s : Store} (hs : s.WellFormed) {e f : Term} (he : e.Below s.types.size s.units.size)
    (hf : f.Below s.types.size s.units.size) : s.Unifies e f (s.unify e f) := by
  have hrun : s.unify e f = .ofRun (UnifyM.within (s.levelBound e f) e f s) := by
    rw [unify]
    cases UnifyM.within (s.levelBound e f) e f s <;> rfl
  have hw : Pending.WellFormed ⟨[.types none e f], s⟩ := ⟨hs, List.forall_mem_singleton.2 ⟨he, hf⟩⟩
  have hworks := works_within (s.levelBound e f) hw
  rw [← hrun, Attempt.inField_none] at hworks
  exact hworks fun err herr => hs.isCyclic_of_unify he hf herr

/-- On a store that comes about by operations the recursions come to an end without any bound, each with one result,
and it is the result of the function that has a bound. -/
theorem recursions_end {s : Store} (hs : s.Reachable) :
    (∀ id t, s.Follows id t ↔ t = s.root id) ∧ (∀ id t found, s.Searches id t found ↔ found = s.occurs id t) ∧
      (∀ u v, s.Resolves u v ↔ v = s.resolve u) ∧ (∀ c t r, s.Reads c t r ↔ r = s.readType c t) ∧
      (∀ c b r, s.Solves c b r ↔ r = s.solve c b) ∧
      (∀ u v r, s.UnifiesUnits u v r ↔ r = s.unifyUnits u v) ∧
      ∀ e f a, e.Below s.types.size s.units.size → f.Below s.types.size s.units.size →
        (s.Unifies e f a ↔ a = s.unify e f) := by
  have hwf := hs.wellFormed
  -- At most one result is derivable, and the bounded function gives a derivable one.
  refine ⟨fun id t => ?_, fun id t found => ?_, fun u v => ?_, fun c t r => ?_, fun c b r => ?_, fun u v r => ?_,
    fun e f a he hf => ?_⟩
  · exact ⟨fun h => h.unique (hwf.follows id), fun h => h ▸ hwf.follows id⟩
  · exact ⟨fun h => h.unique (hwf.searches id t), fun h => h ▸ hwf.searches id t⟩
  · exact ⟨fun h => h.unique (hwf.resolves u), fun h => h ▸ hwf.resolves u⟩
  · exact ⟨fun h => h.unique (hwf.reads c t), fun h => h ▸ hwf.reads c t⟩
  · exact ⟨fun h => h.unique (hwf.solves c b), fun h => h ▸ hwf.solves c b⟩
  · exact ⟨fun h => h.unique (hwf.unifiesUnits u v), fun h => h ▸ hwf.unifiesUnits u v⟩
  · exact ⟨fun h => h.unique (hwf.unifies he hf), fun h => h ▸ hwf.unifies he hf⟩

/-- The second attempt fails after it has given the variable `1` a value.  In the third one the variables `0` and `1`
are replaced by their values before `2` gets one.  A search on a store with a cycle would not end. -/
theorem recursions_end_after_failure :
    let ops : List Operation := [.freshType, .freshType, .freshType, .freshUnit, .unify (.var 0) (.array (.var 1)),
      .unify (.function [.var 1] (.primitive .text)) (.function [.array (.var 2)] (.primitive .date))]
    let s := Store.empty.run ops
    let u : Term := .number (.single (.var 0))
    let e : Term := .function [.var 0] (.var 2)
    let f : Term := .function [.array (.array (.var 2))] u
    s.Reachable ∧ e.Below s.types.size s.units.size ∧ f.Below s.types.size s.units.size ∧
      s.Searches 2 (.var 0) true ∧
      s.Unifies e f ⟨⟨#[some (.array (.var 1)), some (.array (.var 2)), some u], #[none]⟩, .ok ()⟩ ∧
      ¬ ∃ found, Searches ⟨#[some (.array (.var 1)), some (.array (.var 0))], #[]⟩ 2 (.var 0) found := by
  intro ops s u e f
  have hreachable : s.Reachable := by
    refine ⟨ops, ⟨trivial, trivial, trivial, trivial, ?_, ?_, trivial⟩, rfl⟩
    · have hstore : Store.empty.run (ops.take 4) = ⟨#[none, none, none], #[none]⟩ := rfl
      show Operation.Allowed (Store.empty.run (ops.take 4)) _
      rw [hstore]
      simp [Operation.Allowed, Term.Below]
    · have hstore : Store.empty.run (ops.take 5) = ⟨#[some (.array (.var 1)), none, none], #[none]⟩ := rfl
      show Operation.Allowed (Store.empty.run (ops.take 5)) _
      rw [hstore]
      simp [Operation.Allowed, Term.Below]
  have hbelow : ∀ t ∈ [e, f], t.Below 3 1 := by
    simp [e, f, u, Term.Below, UnitTerm.Below, Product.single, Product.atoms]
  have he : e.Below s.types.size s.units.size := hbelow e (by simp)
  have hf : f.Below s.types.size s.units.size := hbelow f (by simp)
  obtain ⟨-, hsearches, -, -, -, -, hunifies⟩ := recursions_end hreachable
  refine ⟨hreachable, he, hf, (hsearches 2 _ true).2 rfl, (hunifies e f _ he hf).2 rfl, ?_⟩
  rintro ⟨found, hfound⟩
  have hedge : TypeEdge ⟨#[some (.array (.var 1)), some (.array (.var 0))], #[]⟩ 0 1 :=
    ⟨_, rfl, .inside List.mem_cons_self .here⟩
  exact not_searches_of_cycle .here (.tail (.single hedge) ⟨_, rfl, .inside List.mem_cons_self .here⟩) hfound

end Store

end Tabula
