import Mathlib.Logic.Relation
import Tabula.Proofs.AscendingKeys
import Tabula.Proofs.TermParts
import Tabula.Store.Unify

/-!
# Unification one equation at a time

`Store.unify` goes down into two terms and changes the store on the way.  What it does next never depends on
where it is in the terms, so it can be told as a sequence of steps on a list of pending equations: a step
takes the first equation, and either puts the equations between the parts in its place or changes the store.

What two terms demand in order to be equal does not depend on the store: `Term.demand` says it.  The run of
`Store.unify` is then a sequence of steps, up to the end of the list or to an equation that has no solution.
All that is proved about unification is proved of one step.

Nothing is said here about how many levels are enough.  An attempt that runs out of levels ends like one
that meets an equation without a solution; it is told apart by its error.
-/

namespace Tabula

open Relation (ReflTransGen)

/-- What remains to be satisfied. -/
inductive Equation where
  /-- The terms are equal; they are the types of the field, if there is one. -/
  | types (field : Option Name) (expected found : Term)
  | units (expected found : UnitTerm)
  /-- There is no solution. -/
  | failure (e : UnifyError)

/-- What two terms demand in order to be equal. -/
inductive Demand where
  /-- The variable has to have this value. -/
  | value (id : VarId) (t : Term)
  | equations (qs : List Equation)

namespace Term

/-- The equations between arguments, up to the first pair of different kinds. -/
def argEquations (name : Name) (position : Nat) :
    List (Arg UnitTerm Term) → List (Arg UnitTerm Term) → List Equation
  | .unit u :: as, .unit v :: bs => .units u v :: argEquations name (position + 1) as bs
  | .type s :: as, .type t :: bs => .types none s t :: argEquations name (position + 1) as bs
  | a :: _, b :: _ => [.failure (.argumentKind name position a.kind b.kind)]
  | _, _ => []

/-- The equations between parameters. -/
def paramEquations : List Term → List Term → List Equation
  | s :: ss, t :: ts => .types none s t :: paramEquations ss ts
  | _, _ => []

/-- The equations between the fields of a record and those of another one that have the same names. -/
def fieldEquations (expected : List (Field Term)) (complete : Bool) : List (Field Term) → List Equation
  | [] => []
  | ⟨name, t, required⟩ :: found =>
      match Field.find? name expected with
      | some field =>
          if field.required = required then
            .types (some name) field.type t :: fieldEquations expected complete found
          else [.failure (.fieldOptionality name)]
      | none =>
          if complete then [.failure (.extraField name)] else fieldEquations expected complete found

/-- A complete record lacks no field of the other one. -/
def missingEquations (expected found : List (Field Term)) (complete : Bool) : List Equation :=
  match UnifyM.missingField? expected found with
  | some field => if complete then [.failure (.missingField field.name)] else []
  | none => []

/-- What two terms demand of which neither is a variable with a value. -/
def demand : Term → Term → Demand
  | .var id, .var other => if id = other then .equations [] else .value id (.var other)
  | .var id, t => .value id t
  | t, .var id => .value id t
  | .number u, .number v => .equations [.units u v]
  | .primitive p, .primitive q =>
      .equations (if p = q then [] else [.failure (.typeMismatch (.primitive p) (.primitive q))])
  | .tagged name as, .tagged other bs =>
      .equations (
        if name = other then
          if as.length = bs.length then argEquations name 0 as bs
          else [.failure (.taggedArity name as.length bs.length)]
        else [.failure (.typeMismatch (.tagged name as) (.tagged other bs))])
  | .record expected expectedComplete, .record found foundComplete =>
      .equations (fieldEquations expected expectedComplete found ++
        missingEquations expected found foundComplete)
  | .array s, .array t => .equations [.types none s t]
  | .function ps r, .function qs s =>
      .equations (
        if ps.length = qs.length then paramEquations ps qs ++ [.types none r s]
        else [.failure (.functionArity ps.length qs.length)])
  | expected, found => .equations [.failure (.typeMismatch expected found)]

end Term

/-- The levels were used up somewhere inside. -/
def UnifyError.isCyclic : UnifyError → Bool
  | .inField _ cause => cause.isCyclic
  | .cyclicStore => true
  | _ => false

/-- The sides of the equation are related, terms by `P` and units by `Q`.  A failure has nothing to do with
levels. -/
def Equation.Between (P : Term → Term → Prop) (Q : UnitTerm → UnitTerm → Prop) : Equation → Prop
  | .types _ e f => P e f
  | .units u v => Q u v
  | .failure err => err.isCyclic = false

theorem Equation.Between.imp {P P' : Term → Term → Prop} {Q Q' : UnitTerm → UnitTerm → Prop} {q : Equation}
    (h : q.Between P Q) (hP : ∀ e f, P e f → P' e f) (hQ : ∀ u v, Q u v → Q' u v) : q.Between P' Q' := by
  cases q with
  | types field e f => exact hP e f h
  | units u v => exact hQ u v h
  | failure err => exact h

/-- The equation is between terms with the property `P` or units with the property `Q`. -/
def Equation.All (P : Term → Prop) (Q : UnitTerm → Prop) : Equation → Prop :=
  Equation.Between (fun e f => P e ∧ P f) fun u v => Q u ∧ Q v

namespace Term

theorem argEquations_between {name : Name} {position : Nat} {as bs : List (Arg UnitTerm Term)} :
    ∀ q ∈ argEquations name position as bs,
      q.Between (fun s t => .type s ∈ as ∧ .type t ∈ bs) fun u v => .unit u ∈ as ∧ .unit v ∈ bs := by
  induction as generalizing position bs with
  | nil => cases bs <;> simp [argEquations]
  | cons a as ih =>
      cases bs with
      | nil => cases a <;> simp [argEquations]
      | cons b bs =>
          have hrest : ∀ q ∈ argEquations name (position + 1) as bs,
              q.Between (fun s t => .type s ∈ a :: as ∧ .type t ∈ b :: bs)
                fun u v => .unit u ∈ a :: as ∧ .unit v ∈ b :: bs := fun q hq =>
            (ih q hq).imp (fun _ _ h => ⟨List.mem_cons_of_mem _ h.1, List.mem_cons_of_mem _ h.2⟩)
              fun _ _ h => ⟨List.mem_cons_of_mem _ h.1, List.mem_cons_of_mem _ h.2⟩
          cases a with
          | unit u =>
              cases b with
              | unit v => exact List.forall_mem_cons.2 ⟨⟨List.mem_cons_self, List.mem_cons_self⟩, hrest⟩
              | type t => exact List.forall_mem_singleton.2 rfl
          | type t =>
              cases b with
              | unit v => exact List.forall_mem_singleton.2 rfl
              | type t' => exact List.forall_mem_cons.2 ⟨⟨List.mem_cons_self, List.mem_cons_self⟩, hrest⟩

theorem paramEquations_between {ss ts : List Term} {Q : UnitTerm → UnitTerm → Prop} :
    ∀ q ∈ paramEquations ss ts, q.Between (fun s t => s ∈ ss ∧ t ∈ ts) Q := by
  induction ss generalizing ts with
  | nil => cases ts <;> simp [paramEquations]
  | cons s ss ih =>
      cases ts with
      | nil => simp [paramEquations]
      | cons t ts =>
          refine List.forall_mem_cons.2 ⟨⟨List.mem_cons_self, List.mem_cons_self⟩, fun q hq => ?_⟩
          exact (ih q hq).imp (fun _ _ h => ⟨List.mem_cons_of_mem _ h.1, List.mem_cons_of_mem _ h.2⟩)
            fun _ _ h => h

theorem fieldEquations_between {expected found : List (Field Term)} {complete : Bool}
    {Q : UnitTerm → UnitTerm → Prop} :
    ∀ q ∈ fieldEquations expected complete found,
      q.Between (fun s t => s ∈ expected.map Field.type ∧ t ∈ found.map Field.type) Q := by
  induction found with
  | nil => simp [fieldEquations]
  | cons f found ih =>
      have hrest : ∀ q ∈ fieldEquations expected complete found,
          q.Between (fun s t => s ∈ expected.map Field.type ∧ t ∈ (f :: found).map Field.type) Q := fun q hq =>
        (ih q hq).imp (fun _ _ h => ⟨h.1, List.mem_cons_of_mem _ h.2⟩) fun _ _ h => h
      rw [fieldEquations]
      split
      · rename_i field hfield
        split
        · have hmem := (Ascending.of_find?_eq_some hfield).1
          exact List.forall_mem_cons.2 ⟨⟨List.mem_map_of_mem hmem, List.mem_cons_self⟩, hrest⟩
        · exact List.forall_mem_singleton.2 rfl
      · split
        · exact List.forall_mem_singleton.2 rfl
        · exact hrest

/-- The equations that two terms demand are between their parts. -/
theorem demand_between {e f : Term} {qs : List Equation} (h : e.demand f = .equations qs) :
    ∀ q ∈ qs, q.Between (fun s t => s ∈ e.children ∧ t ∈ f.children)
      fun u v => u ∈ e.units ∧ v ∈ f.units := by
  unfold demand at h
  split at h
  · split at h
    · cases h
      simp
    · cases h
  · cases h
  · cases h
  · cases h
    exact List.forall_mem_singleton.2 ⟨List.mem_cons_self, List.mem_cons_self⟩
  · cases h
    split
    · simp
    · exact List.forall_mem_singleton.2 rfl
  · cases h
    split
    · split
      · intro q hq
        exact (argEquations_between q hq).imp
          (fun _ _ h => ⟨mem_children_tagged.2 h.1, mem_children_tagged.2 h.2⟩)
          fun _ _ h => ⟨mem_units_tagged.2 h.1, mem_units_tagged.2 h.2⟩
      · exact List.forall_mem_singleton.2 rfl
    · exact List.forall_mem_singleton.2 rfl
  · cases h
    refine List.forall_mem_append.2 ⟨fieldEquations_between, ?_⟩
    unfold missingEquations
    split
    · split
      · exact List.forall_mem_singleton.2 rfl
      · simp
    · simp
  · cases h
    exact List.forall_mem_singleton.2 ⟨List.mem_cons_self, List.mem_cons_self⟩
  · cases h
    split
    · refine List.forall_mem_append.2 ⟨fun q hq => ?_, ?_⟩
      · exact (paramEquations_between q hq).imp
          (fun _ _ h => ⟨List.mem_append_left _ h.1, List.mem_append_left _ h.2⟩) fun _ _ h => h
      · exact List.forall_mem_singleton.2 ⟨List.mem_append_right _ List.mem_cons_self,
          List.mem_append_right _ List.mem_cons_self⟩
    · exact List.forall_mem_singleton.2 rfl
  · cases h
    exact List.forall_mem_singleton.2 rfl

theorem demand_equations_all {P : Term → Prop} {Q : UnitTerm → Prop} {e f : Term} (he : e.Everywhere P Q)
    (hf : f.Everywhere P Q) {qs : List Equation} (h : e.demand f = .equations qs) :
    ∀ q ∈ qs, q.All (Everywhere P Q) Q := fun q hq =>
  (demand_between h q hq).imp (fun _ _ h => ⟨he.child _ h.1, hf.child _ h.2⟩)
    fun _ _ h => ⟨he.unit _ h.1, hf.unit _ h.2⟩

/-- A value is demanded for a variable that is one of the terms, and it is the other one. -/
theorem demand_value_cases {e f t : Term} {id : VarId} (h : e.demand f = .value id t) :
    e = .var id ∧ f = t ∨ f = .var id ∧ e = t := by
  unfold demand at h
  split at h
  · split at h
    · cases h
    · cases h
      exact .inl ⟨rfl, rfl⟩
  · cases h
    exact .inl ⟨rfl, rfl⟩
  · cases h
    exact .inr ⟨rfl, rfl⟩
  all_goals cases h

end Term

namespace UnifyM

variable (unify : Term → Term → UnifyM Unit)

/-- Satisfy one equation, using `unify` for terms. -/
def satisfy : Equation → UnifyM Unit
  | .types none e f => unify e f
  | .types (some name) e f => (unify e f).adaptExcept (.inField name)
  | .units u v => units u v
  | .failure e => throw e

/-- Satisfy equations one after the other. -/
def satisfyAll : List Equation → UnifyM Unit
  | [] => pure ()
  | q :: qs => do
      satisfy unify q
      satisfyAll qs

/-- Meet what two terms demand. -/
def meet : Demand → UnifyM Unit
  | .value id t => bindVar id t
  | .equations qs => satisfyAll unify qs

theorem satisfyAll_append (qs rs : List Equation) :
    satisfyAll unify (qs ++ rs) = (do satisfyAll unify qs; satisfyAll unify rs) := by
  induction qs with
  | nil => simp [satisfyAll]
  | cons q qs ih => simp only [List.cons_append, satisfyAll, ih, bind_assoc]

theorem args_eq (name : Name) (position : Nat) (as bs : List (Arg UnitTerm Term)) :
    args unify name position as bs = satisfyAll unify (Term.argEquations name position as bs) := by
  induction as generalizing position bs with
  | nil => cases bs <;> rfl
  | cons a as ih =>
      cases bs with
      | nil => cases a <;> rfl
      | cons b bs =>
          cases a <;> cases b <;>
            simp [args, Term.argEquations, satisfyAll, satisfy, ih]

theorem params_eq (ss ts : List Term) :
    params unify ss ts = satisfyAll unify (Term.paramEquations ss ts) := by
  induction ss generalizing ts with
  | nil => cases ts <;> rfl
  | cons s ss ih =>
      cases ts with
      | nil => rfl
      | cons t ts => simp [params, Term.paramEquations, satisfyAll, satisfy, ih]

theorem fields_eq (expected : List (Field Term)) (complete : Bool) (found : List (Field Term)) :
    fields unify expected complete found = satisfyAll unify (Term.fieldEquations expected complete found) := by
  induction found with
  | nil => rfl
  | cons f found ih =>
      rw [fields, Term.fieldEquations]
      cases Field.find? f.name expected with
      | none =>
          cases complete with
          | true => simp [satisfyAll, satisfy]
          | false => simpa using ih
      | some field =>
          by_cases h : field.required = f.required
          · simp [h, satisfyAll, satisfy, ih]
          · simp [h, satisfyAll, satisfy]

/-- The demand says what unification does at a pair of terms. -/
theorem roots_eq (e f : Term) : roots unify e f = meet unify (e.demand f) := by
  cases e with
  | var id =>
      cases f with
      | var other =>
          simp only [roots, Term.demand]
          split <;> rfl
      | _ => rfl
  | primitive p =>
      cases f with
      | primitive q =>
          simp only [roots, Term.demand, meet]
          split <;> simp [satisfyAll, satisfy]
      | _ => simp [roots, Term.demand, meet, satisfyAll, satisfy]
  | number u => cases f <;> simp [roots, Term.demand, meet, satisfyAll, satisfy]
  | array s => cases f <;> simp [roots, Term.demand, meet, satisfyAll, satisfy]
  | tagged name as =>
      cases f with
      | tagged other bs =>
          simp only [roots, Term.demand, meet]
          split
          · split
            · exact args_eq unify name 0 as bs
            · simp [satisfyAll, satisfy]
          · simp [satisfyAll, satisfy]
      | _ => simp [roots, Term.demand, meet, satisfyAll, satisfy]
  | record expected expectedComplete =>
      cases f with
      | record found foundComplete =>
          simp only [roots, Term.demand, meet, fields_eq, satisfyAll_append]
          congr 1
          funext _
          unfold Term.missingEquations
          cases missingField? expected found with
          | none => rfl
          | some field => cases foundComplete <;> simp [satisfyAll, satisfy]
      | _ => simp [roots, Term.demand, meet, satisfyAll, satisfy]
  | function ps r =>
      cases f with
      | function qs s =>
          simp only [roots, Term.demand, meet]
          split
          · simp [params_eq, satisfyAll_append, satisfyAll, satisfy]
          · simp [satisfyAll, satisfy]
      | _ => simp [roots, Term.demand, meet, satisfyAll, satisfy]

/-- To look at the store is not a step. -/
theorem get_bind {α : Type} (next : Store → UnifyM α) (s : Store) :
    (get >>= next : UnifyM α) s = next s s :=
  rfl

theorem satisfy_units (u v : UnitTerm) (s : Store) :
    satisfy unify (.units u v) s =
      match s.unifyUnits u v with
      | .ok s' => .ok () s'
      | .error e => .error e s := by
  rw [satisfy, units, get_bind]
  cases s.unifyUnits u v <;> rfl

theorem meet_value (id : VarId) (t : Term) (s : Store) :
    meet unify (.value id t) s =
      if s.occurs id t then .error (.infiniteType id t) s else .ok () (s.assignType id t) := by
  rw [meet, bindVar, get_bind]
  split <;> rfl

theorem within_succ (levels : Nat) (e f : Term) (s : Store) :
    within (levels + 1) e f s = meet (within levels) ((s.walk e).demand (s.walk f)) s := by
  rw [← roots_eq]
  rfl

end UnifyM

/-- Pending equations, and the store as it is. -/
structure Pending where
  equations : List Equation
  store : Store

namespace Pending

/-- Take the first equation.  There is no step if no equation is left or the first one has no solution. -/
inductive Step : Pending → Pending → Prop where
  /-- Put the equations between the parts in the place of an equation. -/
  | parts {s : Store} {field : Option Name} {e f : Term} {qs rest : List Equation}
      (hdemand : (s.walk e).demand (s.walk f) = .equations qs) :
      Step ⟨.types field e f :: rest, s⟩ ⟨qs ++ rest, s⟩
  /-- Give a variable a value in which it does not occur. -/
  | value {s : Store} {field : Option Name} {e f : Term} {rest : List Equation} {id : VarId} {t : Term}
      (hdemand : (s.walk e).demand (s.walk f) = .value id t) (hoccurs : s.occurs id t = false) :
      Step ⟨.types field e f :: rest, s⟩ ⟨rest, s.assignType id t⟩
  /-- Solve an equation between units. -/
  | units {s s' : Store} {u v : UnitTerm} {rest : List Equation} (hunits : s.unifyUnits u v = .ok s') :
      Step ⟨.units u v :: rest, s⟩ ⟨rest, s'⟩

/-- One state comes after the other. -/
def Leads : Pending → Pending → Prop :=
  ReflTransGen Step

/-- The state after the next step, if there is one. -/
def next? (w : Pending) : Option Pending :=
  match w.equations with
  | [] => none
  | .types _ e f :: rest =>
      match (w.store.walk e).demand (w.store.walk f) with
      | .equations qs => some ⟨qs ++ rest, w.store⟩
      | .value id t => if w.store.occurs id t then none else some ⟨rest, w.store.assignType id t⟩
  | .units u v :: rest => (w.store.unifyUnits u v).toOption.map fun s => ⟨rest, s⟩
  | .failure _ :: _ => none

/-- A step leads to the next state, so it is determined. -/
theorem Step.next?_eq {w w' : Pending} (h : Step w w') : w.next? = some w' := by
  cases h with
  | parts hdemand => simp only [next?, hdemand]
  | value hdemand hoccurs => simp [next?, hdemand, hoccurs]
  | units hunits => simp [next?, hunits, Except.toOption]

/-- The first equation has no solution. -/
def Stuck (w : Pending) : Prop :=
  w.equations ≠ [] ∧ ∀ w', ¬ Step w w'

/-- How an attempt that starts with pending equations ends: with the equations `rest` left, or at an equation
that allows no step, unless the levels are used up before. -/
def EndsIn (w : Pending) (rest : List Equation) : EStateM.Result UnifyError Store Unit → Prop
  | .ok _ s => w.Leads ⟨rest, s⟩
  | .error e s => ∃ qs, w.Leads ⟨qs, s⟩ ∧ (e.isCyclic = true ∨ Stuck ⟨qs, s⟩)

theorem EndsIn.of_leads {w w' : Pending} {rest : List Equation} {r : EStateM.Result UnifyError Store Unit}
    (h : w.Leads w') (h' : w'.EndsIn rest r) : w.EndsIn rest r := by
  cases r with
  | ok a s => exact h.trans h'
  | error e s =>
      obtain ⟨qs, hleads, hstuck⟩ := h'
      exact ⟨qs, h.trans hleads, hstuck⟩

section Satisfy

variable {unify : Term → Term → UnifyM Unit}

theorem endsIn_satisfy (ih : ∀ field e f rest s, EndsIn ⟨.types field e f :: rest, s⟩ rest (unify e f s))
    (q : Equation) (rest : List Equation) (s : Store) :
    EndsIn ⟨q :: rest, s⟩ rest (UnifyM.satisfy unify q s) := by
  cases q with
  | types field e f =>
      have hunify := ih field e f rest s
      cases field with
      | none => exact hunify
      | some name =>
          rw [UnifyM.satisfy, EStateM.adaptExcept]
          cases hr : unify e f s with
          | ok a s' =>
              rw [hr] at hunify
              exact hunify
          | error e s' =>
              rw [hr] at hunify
              exact hunify
  | units u v =>
      rw [UnifyM.satisfy_units]
      cases hunits : s.unifyUnits u v with
      | ok s' => exact .single (.units hunits)
      | error e =>
          refine ⟨_, .refl, .inr ⟨by simp, fun w' hstep => ?_⟩⟩
          cases hstep with
          | units hok =>
              rw [hunits] at hok
              cases hok
  | failure e => exact ⟨_, .refl, .inr ⟨by simp, fun w' hstep => by cases hstep⟩⟩

theorem endsIn_satisfyAll (ih : ∀ field e f rest s, EndsIn ⟨.types field e f :: rest, s⟩ rest (unify e f s))
    (qs rest : List Equation) (s : Store) :
    EndsIn ⟨qs ++ rest, s⟩ rest (UnifyM.satisfyAll unify qs s) := by
  induction qs generalizing s with
  | nil => exact .refl
  | cons q qs ihq =>
      have hfirst := endsIn_satisfy ih q (qs ++ rest) s
      show EndsIn _ rest (EStateM.bind (UnifyM.satisfy unify q) (fun _ => UnifyM.satisfyAll unify qs) s)
      unfold EStateM.bind
      cases hr : UnifyM.satisfy unify q s with
      | ok a s' =>
          rw [hr] at hfirst
          exact .of_leads hfirst (ihq s')
      | error e s' =>
          rw [hr] at hfirst
          exact hfirst

end Satisfy

/-- An attempt is a sequence of steps. -/
theorem endsIn_within (levels : Nat) (field : Option Name) (e f : Term) (rest : List Equation) (s : Store) :
    EndsIn ⟨.types field e f :: rest, s⟩ rest (UnifyM.within levels e f s) := by
  induction levels generalizing field e f rest s with
  | zero => exact ⟨_, .refl, .inl rfl⟩
  | succ levels ih =>
      rw [UnifyM.within_succ]
      cases hdemand : (s.walk e).demand (s.walk f) with
      | value id t =>
          rw [UnifyM.meet_value]
          split
          · rename_i hoccurs
            refine ⟨_, .refl, .inr ⟨by simp, fun w' hstep => ?_⟩⟩
            cases hstep with
            | parts h =>
                rw [hdemand] at h
                cases h
            | value h hnot =>
                rw [hdemand] at h
                cases h
                rw [hoccurs] at hnot
                cases hnot
          · rename_i hoccurs
            exact .single (.value hdemand (by simpa using hoccurs))
      | equations qs => exact .of_leads (.single (.parts hdemand)) (endsIn_satisfyAll ih qs rest s)

variable {s : Store} {e f : Term}

/-- An attempt that succeeds has satisfied all equations. -/
theorem leads_of_unify_ok (h : (s.unify e f).result = .ok ()) :
    Leads ⟨[.types none e f], s⟩ ⟨[], (s.unify e f).store⟩ := by
  have hends := endsIn_within (s.levelBound e f) none e f [] s
  unfold Store.unify at h ⊢
  cases hr : UnifyM.within (s.levelBound e f) e f s with
  | ok a s' =>
      rw [hr] at hends
      exact hends
  | error err s' =>
      rw [hr] at h
      cases h

/-- An attempt that fails has come to an equation that allows no step, or used up its levels. -/
theorem leads_of_unify_error {err : UnifyError} (h : (s.unify e f).result = .error err) :
    ∃ qs, Leads ⟨[.types none e f], s⟩ ⟨qs, (s.unify e f).store⟩ ∧
      (err.isCyclic = true ∨ Stuck ⟨qs, (s.unify e f).store⟩) := by
  have hends := endsIn_within (s.levelBound e f) none e f [] s
  unfold Store.unify at h ⊢
  cases hr : UnifyM.within (s.levelBound e f) e f s with
  | ok a s' =>
      rw [hr] at h
      cases h
  | error err' s' =>
      rw [hr] at hends h
      cases h
      exact hends

/-- The store after an attempt is reached by steps, however the attempt ends. -/
theorem exists_leads_unify (s : Store) (e f : Term) :
    ∃ qs, Leads ⟨[.types none e f], s⟩ ⟨qs, (s.unify e f).store⟩ := by
  cases hresult : (s.unify e f).result with
  | ok _ => exact ⟨[], leads_of_unify_ok hresult⟩
  | error err =>
      obtain ⟨qs, hleads, -⟩ := leads_of_unify_error hresult
      exact ⟨qs, hleads⟩

end Pending

end Tabula
