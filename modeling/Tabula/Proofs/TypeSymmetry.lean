import Tabula.Proofs.InterchangeableStores
import Tabula.Proofs.MostGeneral
import Tabula.Proofs.StaysSolved

/-!
# The order of the two sides of an equation between types

`Store.unify` goes through the two terms in step, so with the sides exchanged it meets the same equations in the same
order, each with its sides exchanged.  Records are no exception, although they are compared in an asymmetric way: the
fields of the second one are looked up in the first one, and what is missing is noticed afterwards.  As long as nothing
fails, the equations are those between fields of the same name, in order of the names.

What is different is the value of a variable that is made equal to another one.  The two runs are compared up to that
difference: their stores are interchangeable after every step.

Unit variables are left out.  An equation between units is refused in one order only if a power of the quotient is the
least one.
-/

namespace Tabula

open Relation (ReflTransGen)

/-- The equation with its sides exchanged. -/
def Equation.swap : Equation → Equation
  | .types field e f => .types field f e
  | .units u v => .units v u
  | .failure err => .failure err

/-- The equation may have a solution. -/
def Equation.Proper (q : Equation) : Prop :=
  ∀ err, q ≠ .failure err

theorem Equation.not_proper_failure {err : UnifyError} : ¬ ∀ q ∈ [failure err], q.Proper :=
  fun h => List.forall_mem_singleton.1 h err rfl

namespace Term

theorem argEquations_swap {name : Name} {position : Nat} {as bs : List (Arg UnitTerm Term)}
    (h : ∀ q ∈ argEquations name position as bs, q.Proper) :
    argEquations name position bs as = (argEquations name position as bs).map Equation.swap := by
  induction as generalizing position bs with
  | nil =>
      cases bs with
      | nil => rfl
      | cons b bs => cases b <;> rfl
  | cons a as ih =>
      cases bs with
      | nil => cases a <;> rfl
      | cons b bs =>
          cases a with
          | unit u =>
              cases b with
              | unit v => exact congrArg _ (ih (List.forall_mem_cons.1 h).2)
              | type t => exact absurd h Equation.not_proper_failure
          | type t =>
              cases b with
              | unit v => exact absurd h Equation.not_proper_failure
              | type t' => exact congrArg _ (ih (List.forall_mem_cons.1 h).2)

theorem paramEquations_swap (ss ts : List Term) :
    paramEquations ts ss = (paramEquations ss ts).map Equation.swap := by
  induction ss generalizing ts with
  | nil => cases ts <;> rfl
  | cons s ss ih =>
      cases ts with
      | nil => rfl
      | cons t ts => exact congrArg _ (ih ts)

section Records

variable {expected found : List (Field Term)} {complete : Bool}

/-- Fields of the same name agree in whether they are required, and a complete record has all fields of the other
one. -/
theorem fieldEquations_proper_iff :
    (∀ q ∈ fieldEquations expected complete found, q.Proper) ↔
      ∀ g ∈ found, (∀ f, Field.find? g.name expected = some f → f.required = g.required) ∧
        (Field.find? g.name expected = none → complete = false) := by
  induction found with
  | nil => simp [fieldEquations]
  | cons g found ih =>
      rw [fieldEquations, List.forall_mem_cons, ← ih]
      cases hfind : Field.find? g.name expected with
      | none => cases complete <;> simp [Equation.Proper]
      | some f =>
          dsimp only
          split <;> simp_all [Equation.Proper]

/-- If nothing fails, the equations are between fields of the same name. -/
theorem fieldEquations_eq (h : ∀ q ∈ fieldEquations expected complete found, q.Proper) :
    fieldEquations expected complete found = found.filterMap fun g =>
      (Field.find? g.name expected).map fun f => .types (some g.name) f.type g.type := by
  rw [fieldEquations_proper_iff] at h
  induction found with
  | nil => rfl
  | cons g found ih =>
      obtain ⟨⟨hrequired, hcomplete⟩, h⟩ := List.forall_mem_cons.1 h
      rw [fieldEquations, List.filterMap_cons]
      cases hfind : Field.find? g.name expected with
      | none =>
          obtain rfl := hcomplete hfind
          simpa using ih h
      | some f => simp [hrequired f hfind, ih h]

theorem missingEquations_proper_iff :
    (∀ q ∈ missingEquations expected found complete, q.Proper) ↔
      ∀ f ∈ expected, Field.find? f.name found = none → complete = false := by
  unfold missingEquations
  cases hmissing : UnifyM.missingField? expected found with
  | none =>
      have hfound := List.find?_eq_none.1 hmissing
      refine iff_of_true (by simp) fun f hf hnone => absurd ?_ (hfound f hf)
      rw [hnone]
      rfl
  | some f =>
      cases complete with
      | false => simp
      | true =>
          have hnone : Field.find? f.name found = none := by simpa using List.find?_some hmissing
          refine iff_of_false Equation.not_proper_failure fun h => ?_
          cases h f (List.mem_of_find?_eq_some hmissing) hnone

theorem missingEquations_eq_nil (h : ∀ q ∈ missingEquations expected found complete, q.Proper) :
    missingEquations expected found complete = [] := by
  unfold missingEquations at h ⊢
  split
  · split
    · simp_all [Equation.Proper]
    · rfl
  · rfl

/-- Two records that can be equal demand the same equations in either order. -/
theorem recordEquations_swap {complete' : Bool} (hexpected : Ascending Field.name expected)
    (hfound : Ascending Field.name found)
    (h : ∀ q ∈ fieldEquations expected complete found ++ missingEquations expected found complete', q.Proper) :
    fieldEquations found complete' expected ++ missingEquations found expected complete =
      (fieldEquations expected complete found ++ missingEquations expected found complete').map Equation.swap := by
  obtain ⟨hfields, hmissing⟩ := List.forall_mem_append.1 h
  have hfields' : ∀ q ∈ fieldEquations found complete' expected, q.Proper := by
    refine fieldEquations_proper_iff.2 fun f hf => ⟨fun g hg => ?_, missingEquations_proper_iff.1 hmissing f hf⟩
    obtain ⟨hmem, hname⟩ := Ascending.of_find?_eq_some hg
    have hfind : Field.find? g.name expected = some f := hname ▸ Ascending.find?_of_mem hexpected hf
    exact ((fieldEquations_proper_iff.1 hfields g hmem).1 f hfind).symm
  have hmissing' : ∀ q ∈ missingEquations found expected complete, q.Proper :=
    missingEquations_proper_iff.2 fun g hg => (fieldEquations_proper_iff.1 hfields g hg).2
  rw [missingEquations_eq_nil hmissing, missingEquations_eq_nil hmissing', fieldEquations_eq hfields,
    fieldEquations_eq hfields', List.append_nil, List.append_nil, List.map_filterMap]
  have hpairs := Ascending.filterMap_find?_swap (fun f g => Equation.types (some f.name) g.type f.type) hexpected hfound
  refine Eq.trans hpairs.symm (List.filterMap_congr fun g _ => ?_)
  show (Field.find? g.name expected).map _ = _
  cases hfind : Field.find? g.name expected with
  | none => rfl
  | some f =>
      obtain ⟨-, hname⟩ := Ascending.of_find?_eq_some hfind
      simp only [Option.map_some, Equation.swap, hname]

end Records

/-- Two terms that can be equal demand the same equations in either order. -/
theorem demand_swap {e f : Term} {qs : List Equation} (h : e.demand f = .equations qs) (hqs : ∀ q ∈ qs, q.Proper)
    (he : ∀ fields complete, e = .record fields complete → Ascending Field.name fields)
    (hf : ∀ fields complete, f = .record fields complete → Ascending Field.name fields) :
    f.demand e = .equations (qs.map Equation.swap) := by
  unfold demand at h
  split at h
  · rename_i id other
    split at h
    · rename_i heq
      cases h
      rw [demand, if_pos heq.symm]
      rfl
    · cases h
  · cases h
  · cases h
  · cases h
    rfl
  · rename_i p q
    cases h
    by_cases heq : p = q
    · rw [demand, if_pos heq, if_pos heq.symm]
      rfl
    · rw [if_neg heq] at hqs
      exact absurd hqs Equation.not_proper_failure
  · rename_i name as other bs
    cases h
    by_cases heq : name = other
    · rw [if_pos heq] at hqs ⊢
      by_cases hlength : as.length = bs.length
      · rw [if_pos hlength] at hqs ⊢
        rw [demand, if_pos heq.symm, if_pos hlength.symm, ← heq, argEquations_swap hqs]
      · rw [if_neg hlength] at hqs
        exact absurd hqs Equation.not_proper_failure
    · rw [if_neg heq] at hqs
      exact absurd hqs Equation.not_proper_failure
  · cases h
    rw [demand, recordEquations_swap (he _ _ rfl) (hf _ _ rfl) hqs]
  · cases h
    rfl
  · rename_i ps r ps' r'
    cases h
    by_cases hlength : ps.length = ps'.length
    · rw [demand, if_pos hlength, if_pos hlength.symm, paramEquations_swap ps ps', List.map_append]
      rfl
    · rw [if_neg hlength] at hqs
      exact absurd hqs Equation.not_proper_failure
  · cases h
    exact absurd hqs Equation.not_proper_failure

theorem demand_var_left {t : Term} {id : VarId} (h : t ≠ .var id) : (var id).demand t = .value id t := by
  cases t with
  | var other => rw [demand, if_neg fun heq => h (congrArg var heq.symm)]
  | _ => rfl

theorem demand_var_right {t : Term} (h : ∀ j, t ≠ .var j) (id : VarId) : t.demand (.var id) = .value id t := by
  cases t with
  | var other => exact absurd rfl (h other)
  | _ => rfl

end Term

namespace Store

variable {s s' : Store} {e f t : Term} {id : VarId}

/-- A value that is given in one store has a counterpart in the other one, with the sides exchanged. -/
theorem Interchangeable.exists_value (h : s.Interchangeable s') (hs : s.WellFormed) (hs' : s'.WellFormed)
    (hdemand : (s.walk e).demand (s.walk f) = .value id t) (hoccurs : s.occurs id t = false) :
    ∃ id' t', (s'.walk f).demand (s'.walk e) = .value id' t' ∧ s'.occurs id' t' = false := by
  have hne := Term.demand_value_ne hdemand
  rcases Term.demand_value_cases hdemand with ⟨hvar, rfl⟩ | ⟨hvar, rfl⟩
  · obtain ⟨id', hid'⟩ := h.exists_var hvar
    by_cases hf : ∃ j, s.walk f = .var j
    · -- Both sides end in variables, so the other one of the two gets a value.
      obtain ⟨j, hj⟩ := hf
      obtain ⟨j', hj'⟩ := h.exists_var hj
      have hdiffer : s'.walk e ≠ s'.walk f := fun heq => hne ((h.symm.walk_eq_walk heq).symm.trans hvar)
      refine ⟨j', .var id', ?_, Bool.eq_false_of_not_eq_true fun hoccurs' => ?_⟩
      · rw [hid', hj'] at hdiffer ⊢
        exact Term.demand_var_left hdiffer
      · have hself : s'.walk (.var id') = s'.walk e := hid' ▸ (Extends.refl s').walk_walk hs' e
        cases ((hs'.occurs_iff_reaches hj').1 hoccurs').of_walk_eq hself with
        | here heq => exact hdiffer heq
        | inside hc =>
            rw [hid'] at hc
            cases hc
    · have hf : ∀ j, s.walk f ≠ .var j := fun j hj => hf ⟨j, hj⟩
      refine ⟨id', s.walk f, ?_, (h.occurs_eq hs hs' hvar hid' _).trans hoccurs⟩
      rw [h.walk_eq hf, hid', Term.demand_var_right hf]
  · obtain ⟨id', hid'⟩ := h.exists_var hvar
    have he : ∀ j, s.walk e ≠ .var j := by
      intro j hj
      rw [hj] at hne hdemand
      rw [hvar, Term.demand_var_left fun heq => hne heq.symm] at hdemand
      cases hdemand
      exact hne rfl
    refine ⟨id', s.walk e, ?_, (h.occurs_eq hs hs' hvar hid' _).trans hoccurs⟩
    rw [h.walk_eq he, hid', Term.demand_var_left (he id')]

end Store

/-- There are no unit variables, and all records, complete or open, have their fields in order. -/
def Term.PlainOrOpen : Term → Prop :=
  Everywhere (fun t => ∀ fields complete, t = .record fields complete → Ascending Field.name fields)
    fun u => ∀ id, .var id ∉ u.atoms

namespace Pending

variable {w w' : Pending} {s s' : Store}

/-- There are no unit variables, and all records have their fields in order. -/
def PlainOrOpen : Pending → Prop :=
  Everywhere (fun t => ∀ fields complete, t = .record fields complete → Ascending Field.name fields)
    fun u => ∀ id, .var id ∉ u.atoms

theorem PlainOrOpen.walk (h : w.PlainOrOpen) {t : Term} (ht : t.PlainOrOpen) : (w.store.walk t).PlainOrOpen :=
  Store.walk_of (fun id t hvalue _ => h.store id t hvalue) ht

/-- The equations are about the variables of an interchangeable store as well. -/
theorem WellFormed.swap (h : w.WellFormed) (hs' : s'.WellFormed) (hstores : w.store.Interchangeable s') :
    WellFormed ⟨w.equations.map Equation.swap, s'⟩ := by
  refine ⟨hs', List.forall_mem_map.2 fun q hq => ?_⟩
  have hall := h.equations q hq
  rw [hstores.units, hstores.size] at hall
  cases q with
  | types field e f => exact And.symm hall
  | units u v => exact And.symm hall
  | failure err => exact hall

/-- Equations that were satisfied are none that fail. -/
theorem Leads.proper (h : w.Leads ⟨[], s⟩) : ∀ q ∈ w.equations, q.Proper := by
  induction h using ReflTransGen.head_induction_on with
  | refl => simp
  | head hstep _ ih =>
      cases hstep with
      | parts hdemand => exact List.forall_mem_cons.2 ⟨nofun, (List.forall_mem_append.1 ih).2⟩
      | value hdemand hoccurs => exact List.forall_mem_cons.2 ⟨nofun, ih⟩
      | units hunits => exact List.forall_mem_cons.2 ⟨nofun, ih⟩

/-- A step can be made with the sides exchanged in an interchangeable store. -/
theorem Step.swap (h : Step w w') (hw : w.WellFormed) (hplain : w.PlainOrOpen)
    (hproper : ∀ q ∈ w'.equations, q.Proper) (hs' : s'.WellFormed) (hstores : w.store.Interchangeable s') :
    ∃ s'', Step ⟨w.equations.map Equation.swap, s'⟩ ⟨w'.equations.map Equation.swap, s''⟩ ∧
      w'.store.Interchangeable s'' := by
  have hswapped := (hw.swap hs' hstores).equations
  cases h with
  | @parts s field e f qs rest hdemand =>
      obtain ⟨⟨he, hf⟩, -⟩ := List.forall_mem_cons.1 hplain.equations
      have hdemand' : (s'.walk f).demand (s'.walk e) = .equations (qs.map Equation.swap) := by
        rcases Term.demand_equations_cases hdemand with ⟨id, hid, hid'⟩ | ⟨hne, hne'⟩
        · obtain ⟨j, hj⟩ := hstores.exists_var hid
          rw [hstores.walk_eq_walk (hid'.trans hid.symm), hj]
          rw [hid, hid', Term.demand, if_pos rfl] at hdemand
          cases hdemand
          rw [Term.demand, if_pos rfl]
          rfl
        · rw [hstores.walk_eq hne, hstores.walk_eq hne']
          exact Term.demand_swap hdemand (List.forall_mem_append.1 hproper).1 (hplain.walk he).node
            (hplain.walk hf).node
      refine ⟨s', ?_, hstores⟩
      rw [List.map_append]
      exact .parts hdemand'
  | @value s field e f rest id t hdemand hoccurs =>
      obtain ⟨⟨he, hf⟩, -⟩ := List.forall_mem_cons.1 hw.equations
      obtain ⟨⟨hf', he'⟩, -⟩ := List.forall_mem_cons.1 hswapped
      obtain ⟨id', t', hdemand', hoccurs'⟩ := hstores.exists_value hw.store hs' hdemand hoccurs
      have hmerges := hw.store.merges_assignType he hf hdemand hoccurs
      have hmerges' := hs'.merges_assignType hf' he' hdemand' hoccurs'
      exact ⟨_, .value hdemand' hoccurs', hstores.merges hmerges hmerges'.symm⟩
  | @units s s₁ u v rest hunits =>
      obtain ⟨⟨hu, hv⟩, -⟩ := List.forall_mem_cons.1 hplain.equations
      obtain ⟨hbeq, rfl⟩ := (Store.unifyUnits_eq_ok_iff_beq hu hv).1 hunits
      have hbeq' : v == u := UnitTerm.bare_eq_iff.1 (UnitTerm.bare_eq_iff.2 hbeq).symm
      exact ⟨s', .units ((Store.unifyUnits_eq_ok_iff_beq hv hu).2 ⟨hbeq', rfl⟩), hstores⟩

/-- Equations that were satisfied can be satisfied with the sides exchanged. -/
theorem Leads.swap (h : w.Leads ⟨[], s⟩) (hw : w.WellFormed) (hplain : w.PlainOrOpen) (hs' : s'.WellFormed)
    (hstores : w.store.Interchangeable s') :
    ∃ s₂, Leads ⟨w.equations.map Equation.swap, s'⟩ ⟨[], s₂⟩ ∧ s.Interchangeable s₂ := by
  induction h using ReflTransGen.head_induction_on generalizing s' with
  | refl => exact ⟨s', .refl, hstores⟩
  | head hstep hrest ih =>
      obtain ⟨s'', hstep', hstores'⟩ := hstep.swap hw hplain (Leads.proper hrest) hs' hstores
      have hs'' := (hstep'.wellFormed (hw.swap hs' hstores)).1.store
      obtain ⟨s₂, hleads, hfinal⟩ := ih (hstep.wellFormed hw).1 (hstep.everywhere hplain) hs'' hstores'
      exact ⟨s₂, .head hstep' hleads, hfinal⟩

end Pending

namespace Store

variable {s : Store} {e f : Term}

theorem WellFormed.unify_swap (hs : s.WellFormed) (hvalues : ∀ id t, s.typeValue? id = some t → t.PlainOrOpen)
    (he : e.PlainOrOpen) (hebelow : e.Below s.types.size s.units.size) (hf : f.PlainOrOpen)
    (hfbelow : f.Below s.types.size s.units.size) (hok : (s.unify e f).result = .ok ()) :
    (s.unify f e).result = .ok () ∧ (s.unify e f).store.Interchangeable (s.unify f e).store := by
  have hw : Pending.WellFormed ⟨[.types none e f], s⟩ := ⟨hs, List.forall_mem_singleton.2 ⟨hebelow, hfbelow⟩⟩
  have hplain : Pending.PlainOrOpen ⟨[.types none e f], s⟩ := ⟨hvalues, List.forall_mem_singleton.2 ⟨he, hf⟩⟩
  obtain ⟨s₂, hleads, hstores⟩ := (Pending.leads_of_unify_ok hok).swap hw hplain hs hs.interchangeable_self
  rw [hs.unify_of_leads hfbelow hebelow hleads]
  exact ⟨rfl, hstores⟩

/-- The sides of an equation between types can be exchanged: it succeeds in either order or in none, and every term is
read back alike from the two resulting stores. -/
theorem unify_symmetric (hs : s.Reachable) (hvalues : ∀ id t, s.typeValue? id = some t → t.PlainOrOpen)
    (he : e.PlainOrOpen) (hebelow : e.Below s.types.size s.units.size) (hf : f.PlainOrOpen)
    (hfbelow : f.Below s.types.size s.units.size) :
    ((s.unify e f).result = .ok () ↔ (s.unify f e).result = .ok ()) ∧
    ((s.unify e f).result = .ok () → ∀ (c : Catalog) (x : Term) (d : GroundType),
      (s.unify e f).store.readType c x = .ok d ↔ (s.unify f e).store.readType c x = .ok d) := by
  have hswap := hs.wellFormed.unify_swap hvalues he hebelow hf hfbelow
  have hswap' := hs.wellFormed.unify_swap hvalues hf hfbelow he hebelow
  refine ⟨⟨fun hok => (hswap hok).1, fun hok => (hswap' hok).1⟩, fun hok c x d => ?_⟩
  have hread := (hswap hok).2.readType (c := c) x
  exact ⟨hread.forward d, hread.backward d⟩

/-- The two variables in the fields named `a` get each other as their values, and in the fields named `b` each order
goes on with the end of its own chain.  The first record is open and lacks a field of the second one. -/
theorem unify_symmetric_of_opposite_chains :
    let s := Store.empty.run [.freshType, .freshType, .freshType]
    let e : Term := .record [⟨"a", .var 0, true⟩, ⟨"b", .array (.var 2), true⟩, ⟨"c", .var 2, false⟩] false
    let f : Term := .record [⟨"a", .var 1, true⟩, ⟨"b", .var 0, true⟩, ⟨"c", .primitive .text, false⟩,
      ⟨"d", .number (.single (.unit ⟨"m", "metre"⟩)), true⟩] true
    (s.unify e f).store.typeValue? 0 = some (.var 1) ∧ (s.unify f e).store.typeValue? 1 = some (.var 0) ∧
      (s.unify e f).result = .ok () ∧ (s.unify f e).result = .ok () ∧
      (s.unify e f).store.readType .builtin (.var 0) = .ok (.array (.primitive .text)) ∧
      (s.unify f e).store.readType .builtin (.var 0) = .ok (.array (.primitive .text)) := by
  intro s e f
  have hreachable : s.Reachable :=
    ⟨[.freshType, .freshType, .freshType], ⟨trivial, trivial, trivial, trivial⟩, rfl⟩
  have hstore : s = ⟨#[none, none, none], #[]⟩ := rfl
  have hvalues : ∀ id t, s.typeValue? id = some t → t.PlainOrOpen := by
    intro id t h
    have hid := lt_of_typeValue? h
    rw [hstore] at h hid
    have hcases : ∀ n : Nat, n < 3 → n = 0 ∨ n = 1 ∨ n = 2 := by omega
    rcases hcases id hid with rfl | rfl | rfl
    · cases h
    · cases h
    · cases h
  have hab : compare "a" "b" = .lt := by decide
  have hac : compare "a" "c" = .lt := by decide
  have had : compare "a" "d" = .lt := by decide
  have hbc : compare "b" "c" = .lt := by decide
  have hbd : compare "b" "d" = .lt := by decide
  have hcd : compare "c" "d" = .lt := by decide
  have he : e.PlainOrOpen := by
    simp [e, Term.PlainOrOpen, Ascending, hab, hac, hbc]
  have hf : f.PlainOrOpen := by
    simp [f, Term.PlainOrOpen, Ascending, hab, hac, had, hbc, hbd, hcd, Product.single, Product.atoms]
  have hbelow : ∀ t ∈ [e, f], t.Below s.types.size s.units.size := by
    rw [hstore]
    simp [e, f, Term.Below, UnitTerm.Below, Product.single, Product.atoms]
  obtain ⟨hiff, hread⟩ := unify_symmetric hreachable hvalues he (hbelow e (by simp)) hf (hbelow f (by simp))
  have h₁ : s.unify e f =
      ⟨⟨#[some (.var 1), some (.array (.var 2)), some (.primitive .text)], #[]⟩, .ok ()⟩ := by
    rw [hstore]
    simp only [e, f]
    rfl
  have h₂ : s.unify f e =
      ⟨⟨#[some (.array (.var 2)), some (.var 0), some (.primitive .text)], #[]⟩, .ok ()⟩ := by
    rw [hstore]
    simp only [e, f]
    rfl
  have hok : (s.unify e f).result = .ok () := by rw [h₁]
  have htext : (s.unify e f).store.readType .builtin (.var 0) = .ok (.array (.primitive .text)) := by
    rw [h₁]
    rfl
  exact ⟨by rw [h₁]; rfl, by rw [h₂]; rfl, hok, hiff.1 hok, htext, (hread hok _ _ _).1 htext⟩

end Store

end Tabula
