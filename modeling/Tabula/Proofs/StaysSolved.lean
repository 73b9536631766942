import Tabula.Proofs.GroundReading
import Tabula.Proofs.LevelBound
import Tabula.Proofs.Substitution

/-!
# Solved equations stay solved

Once two terms were made equal, they are found equal at every later point of a run, and nothing is changed by
looking again.  The variables that stood for parts of them may have got values in between, and what is in these
values is compared again; but what was put in the place of a variable is put there on both sides.

Open records are allowed, so being equal in this sense is no equivalence: an open record accepts many records
that do not accept each other.  The proof does not compare terms, it repeats the steps of the first attempt in
the later store.  A step that gave a variable a value has nothing left to do there, since both sides lead to the
same term; all other steps are the same.

For units the powers have to fit whenever a unit is resolved in the two attempts.  Nothing is assumed about
units that are resolved in between.
-/

namespace Tabula

open Relation (ReflTransGen)

namespace Pending

theorem step_rightUnique : Relator.RightUnique Step := fun _ _ _ h h' =>
  Option.some.inj (h.next?_eq.symm.trans h'.next?_eq)

/-- Steps that cannot be continued lead to the same end. -/
theorem Leads.eq_of_final {w a b : Pending} (h : w.Leads a) (h' : w.Leads b) (ha : ∀ w', ¬ Step a w')
    (hb : ∀ w', ¬ Step b w') : a = b := by
  rcases ReflTransGen.total_of_right_unique step_rightUnique h h' with hab | hba
  · rcases hab.cases_head with heq | ⟨w', hstep, -⟩
    · exact heq
    · exact absurd hstep (ha w')
  · rcases hba.cases_head with heq | ⟨w', hstep, -⟩
    · exact heq.symm
    · exact absurd hstep (hb w')

theorem not_step_nil (s : Store) (w : Pending) : ¬ Step ⟨[], s⟩ w :=
  nofun

/-- Equations of which each is satisfied by itself are satisfied one after the other. -/
theorem leads_of_forall {qs : List Equation} {s : Store}
    (h : ∀ q ∈ qs, ∀ rest, Leads ⟨q :: rest, s⟩ ⟨rest, s⟩) (rest : List Equation) :
    Leads ⟨qs ++ rest, s⟩ ⟨rest, s⟩ := by
  induction qs with
  | nil => exact .refl
  | cons q qs ih =>
      obtain ⟨hq, hqs⟩ := List.forall_mem_cons.1 h
      exact (hq (qs ++ rest)).trans (ih hqs)

end Pending

namespace Store

variable {s s' : Store} {e f : Term}

/-- The steps determine how an attempt ends. -/
theorem WellFormed.unify_of_leads (hs : s.WellFormed) (he : e.Below s.types.size s.units.size)
    (hf : f.Below s.types.size s.units.size) (h : Pending.Leads ⟨[.types none e f], s⟩ ⟨[], s'⟩) :
    s.unify e f = ⟨s', .ok ()⟩ := by
  have hfinal := Pending.not_step_nil s'
  cases hresult : (s.unify e f).result with
  | ok _ =>
      have hstore := h.eq_of_final (Pending.leads_of_unify_ok hresult) hfinal (Pending.not_step_nil _)
      cases hattempt : s.unify e f with
      | mk store result =>
          rw [hattempt] at hresult hstore
          cases hstore
          cases hresult
          rfl
  | error err =>
      obtain ⟨w, hleads, hne, hstuck⟩ := hs.exists_stuck_of_unify he hf hresult
      obtain rfl := h.eq_of_final hleads hfinal hstuck
      exact absurd rfl hne

/-- The fields of all records in the values are in order. -/
def Ordered (s : Store) : Prop :=
  ∀ id t, s.typeValue? id = some t → t.Ordered

/-- Terms that lead to the same term are equal as they are. -/
theorem WellFormed.leads_of_walk_eq (hs : s.WellFormed) (hvalues : s.Ordered)
    (hebelow : e.Below s.types.size s.units.size) (he : e.Ordered) (h : s.walk e = s.walk f)
    (field : Option Name) (rest : List Equation) :
    Pending.Leads ⟨.types field e f :: rest, s⟩ ⟨rest, s⟩ := by
  let d := max s.valueDepth e.depth
  have hdepth : ∀ id t, s.typeValue? id = some t → t.depth ≤ d := fun id t hvalue =>
    (depth_le_valueDepth hvalue).trans (Nat.le_max_left _ _)
  -- The induction is on the number of levels below the term when values are followed.
  have hlevels : ∀ n e f field rest, s.Needs d e n → e.Ordered → s.walk e = s.walk f →
      Pending.Leads ⟨.types field e f :: rest, s⟩ ⟨rest, s⟩ := by
    intro n
    induction n with
    | zero =>
        intro e f field rest hneeds
        obtain ⟨_, _, -, -, hle⟩ := hneeds
        have hpos := Term.depth_pos e
        omega
    | succ n ih =>
        intro e f field rest hneeds he h
        have hneeds := hneeds.walk hdepth
        have he : (s.walk e).Ordered := walk_of (fun id t hvalue _ => hvalues id t hvalue) he
        obtain ⟨qs, hdemand, hholds⟩ := Term.demand_self he.node
        have hbetween := Term.demand_between hdemand
        rw [h] at hdemand
        nth_rewrite 1 [← h] at hdemand
        refine .head (.parts hdemand) (Pending.leads_of_forall (fun q hq rest => ?_) rest)
        cases q with
        | types field c c' =>
            obtain rfl : c = c' := hholds _ hq
            obtain ⟨hc, -⟩ : c ∈ (s.walk e).children ∧ c ∈ (s.walk e).children := hbetween _ hq
            exact ih c c field rest (hneeds.child hc) (he.child c hc) rfl
        | units u v =>
            obtain rfl : u = v := hholds _ hq
            exact .single (.units (unifyUnits_self s u))
        | failure err => exact (hholds _ hq).elim
  exact hlevels _ e f field rest (needs_of_below hs hebelow (Nat.le_max_right _ _)) he h

end Store

namespace Pending

variable {w w' : Pending} {s' : Store}

/-- The fields of all records are in order. -/
def Ordered (w : Pending) : Prop :=
  w.Everywhere (fun t => ∀ fields complete, t = .record fields complete → Ascending Field.name fields) fun _ => True

/-- What a step has done needs no change in a later store. -/
theorem Step.again (h : Step w w') (hw : w.WellFormed) (hordered : w.Ordered) (hexact : w.Exact)
    (hs' : s'.WellFormed) (hvalues : s'.Ordered) (hextends : w'.store.Extends s')
    (hexact' : Exact ⟨w.equations, s'⟩) : Leads ⟨w.equations, s'⟩ ⟨w'.equations, s'⟩ := by
  have hlater := (h.wellFormed hw).2.trans hextends
  have hwalk := hlater.walk_walk hs'
  have hbelow := (WellFormed.mono hs' hlater hw.equations).equations
  cases h with
  | @parts s field e f qs rest hdemand =>
      obtain ⟨⟨hebelow, -⟩, -⟩ := List.forall_mem_cons.1 hbelow
      obtain ⟨⟨he, -⟩, -⟩ := List.forall_mem_cons.1 hordered.equations
      rcases Term.demand_equations_cases hdemand with ⟨id, hid, hid'⟩ | ⟨hne, hne'⟩
      · -- Both sides lead to one variable, which may have got a value since.
        have hqs : qs = [] := by
          rw [hid, hid', Term.demand, if_pos rfl] at hdemand
          cases hdemand
          rfl
        subst hqs
        exact hs'.leads_of_walk_eq hvalues hebelow he (by rw [← hwalk e, ← hwalk f, hid, hid']) field rest
      · -- Neither side leads to a variable, so the same parts are compared as before.
        have he : s'.walk e = s.walk e :=
          (hwalk e).symm.trans (Store.walk_eq_self fun id heq => absurd heq (hne id))
        have hf : s'.walk f = s.walk f :=
          (hwalk f).symm.trans (Store.walk_eq_self fun id heq => absurd heq (hne' id))
        exact .single (.parts (by rw [he, hf, hdemand]))
  | @value s field e f rest id t hdemand hoccurs =>
      obtain ⟨⟨hebelow, -⟩, -⟩ := List.forall_mem_cons.1 hbelow
      obtain ⟨⟨he, -⟩, -⟩ := List.forall_mem_cons.1 hordered.equations
      obtain ⟨⟨hebelow₀, hfbelow₀⟩, -⟩ := List.forall_mem_cons.1 hw.equations
      obtain ⟨hid, -, -⟩ := hw.store.of_demand_value hebelow₀ hfbelow₀ hdemand
      have hvalue : s'.typeValue? id = some t := by
        refine hextends.types id t ?_
        rw [Store.typeValue?_assignType (hw.store.ne_var_of_occurs hoccurs) hid, if_pos rfl]
      -- The variable has kept its value, so both sides now lead to what that value leads to.
      have hsame : s'.walk (s.walk e) = s'.walk (s.walk f) := by
        rcases Term.demand_value_cases hdemand with ⟨hvar, rfl⟩ | ⟨hvar, rfl⟩
        · rw [hvar, hs'.walk_var hvalue]
        · rw [hvar, hs'.walk_var hvalue]
      exact hs'.leads_of_walk_eq hvalues hebelow he (by rw [← hwalk e, hsame, hwalk f]) field rest
  | @units s s₁ u v rest hunits =>
      obtain ⟨⟨hu, hv⟩, -⟩ := List.forall_mem_cons.1 hw.equations
      refine .single (.units (hs'.unifyUnits_eq_ok_self hexact'.1 hexact'.2 fun val hval hevaluated => ?_))
      exact (hevaluated.of_extends hextends).eval_eq_of_unifyUnits hval hw.store hu hv hexact.1 hexact.2 hunits

/-- Equations that were satisfied need no change in a later store. -/
theorem Leads.again {s : Store} (h : w.Leads ⟨[], s⟩) (hw : w.WellFormed) (hordered : w.Ordered)
    (hexact : ∀ w', w.Leads w' → w'.Exact) (hs' : s'.WellFormed) (hvalues : s'.Ordered)
    (hextends : s.Extends s') (hexact' : ∀ w', Leads ⟨w.equations, s'⟩ w' → w'.Exact) :
    Leads ⟨w.equations, s'⟩ ⟨[], s'⟩ := by
  induction h using ReflTransGen.head_induction_on with
  | refl => exact .refl
  | head hstep hrest ih =>
      have hw' := (hstep.wellFormed hw).1
      have hlater := (Leads.wellFormed hrest hw').2.trans hextends
      have hagain := hstep.again hw hordered (hexact _ .refl) hs' hvalues hlater (hexact' _ .refl)
      exact hagain.trans (ih hw' (hstep.everywhere hordered) (fun w' h => hexact w' (.head hstep h))
        fun w' h => hexact' w' (hagain.trans h))

end Pending

/-- The fields of all records in the operation are in order. -/
def Operation.Ordered : Operation → Prop
  | .freshType | .freshUnit | .unifyUnits _ _ => True
  | .unify e f => e.Ordered ∧ f.Ordered

namespace Store

variable {s : Store} {e f : Term}

theorem Ordered.perform (hs : s.Ordered) {op : Operation} (hop : op.Ordered) : (s.perform op).Ordered := by
  cases op with
  | freshType =>
      intro id t hvalue
      rw [Store.perform, typeValue?_freshType] at hvalue
      exact hs id t hvalue
  | freshUnit => exact hs
  | unify e f =>
      obtain ⟨qs, hleads⟩ := Pending.exists_leads_unify s e f
      have hw : Pending.Ordered ⟨[.types none e f], s⟩ := ⟨hs, List.forall_mem_singleton.2 hop⟩
      exact (hleads.everywhere hw).store
  | unifyUnits u v =>
      intro id t hvalue
      rw [Store.perform] at hvalue
      split at hvalue
      · rename_i s' hunits
        rw [typeValue?, types_of_unifyUnits hunits] at hvalue
        exact hs id t hvalue
      · exact hs id t hvalue

theorem Ordered.run (hs : s.Ordered) {ops : List Operation} (hops : ∀ op ∈ ops, op.Ordered) :
    (s.run ops).Ordered := by
  induction ops generalizing s with
  | nil => exact hs
  | cons op ops ih =>
      obtain ⟨hop, hops⟩ := List.forall_mem_cons.1 hops
      exact ih (hs.perform hop) hops

theorem ordered_empty : Store.empty.Ordered := by
  intro id t hvalue
  simp [typeValue?, Store.empty] at hvalue

/-- All powers fit when the units are resolved that an attempt to make the terms equal compares. -/
def UnifiesExactly (s : Store) (e f : Term) : Prop :=
  ∀ w, Pending.Leads ⟨[.types none e f], s⟩ w → w.Exact

/-- Terms that were made equal are found equal at any later point of the run, and the store is left as it is. -/
theorem unify_stays_solved {ops more : List Operation} {e f : Term}
    (hrun : Store.empty.Admits (ops ++ .unify e f :: more))
    (hordered : ∀ op ∈ ops ++ .unify e f :: more, op.Ordered)
    (hok : ((Store.empty.run ops).unify e f).result = .ok ())
    (hexact : (Store.empty.run ops).UnifiesExactly e f)
    (hexact' : (Store.empty.run (ops ++ .unify e f :: more)).UnifiesExactly e f) :
    (Store.empty.run (ops ++ .unify e f :: more)).unify e f =
      ⟨Store.empty.run (ops ++ .unify e f :: more), .ok ()⟩ := by
  obtain ⟨hops, ⟨he, hf⟩, hmore⟩ := admits_append.1 hrun
  have hvalues := ordered_empty.run hordered
  obtain ⟨hopsOrdered, hrest⟩ := List.forall_mem_append.1 hordered
  have hfirst : Pending.Ordered ⟨[.types none e f], Store.empty.run ops⟩ :=
    ⟨ordered_empty.run hopsOrdered, List.forall_mem_singleton.2 (List.forall_mem_cons.1 hrest).1⟩
  have hs := (WellFormed.empty.run hops).1
  have hw : Pending.WellFormed ⟨[.types none e f], Store.empty.run ops⟩ :=
    ⟨hs, List.forall_mem_singleton.2 ⟨he, hf⟩⟩
  -- The later store is the one after the first attempt with more operations performed.
  have hlater : Store.empty.run (ops ++ .unify e f :: more) = ((Store.empty.run ops).unify e f).store.run more :=
    run_append .empty ops (.unify e f :: more)
  rw [hlater] at hexact' hvalues ⊢
  have hleads := Pending.leads_of_unify_ok hok
  obtain ⟨hw', hextends⟩ := hleads.wellFormed hw
  obtain ⟨hs', hextends'⟩ := hw'.store.run hmore
  have hsize := hextends.trans hextends'
  refine hs'.unify_of_leads (he.mono hsize.typesSize hsize.unitsSize) (hf.mono hsize.typesSize hsize.unitsSize) ?_
  exact hleads.again hw hfirst hexact hs' hvalues hextends' hexact'

/-- An open record is made equal to one with a further field.  Then a variable below gets an open record as its
value in an attempt that fails, and a unit variable that the first one was solved for gets a value. -/
theorem unify_stays_solved_of_open_records :
    let square (a : Atom VarId) : UnitTerm := (Product.single a).raise ⟨2, by decide, by decide⟩
    let e : Term := .record [⟨"a", .var 0, true⟩, ⟨"b", .number (.single (.var 0)), true⟩] false
    let f : Term := .record [⟨"a", .array (.var 1), true⟩, ⟨"b", .number (square (.var 1)), true⟩,
      ⟨"c", .primitive .text, false⟩] true
    let ops : List Operation := [.freshType, .freshType, .freshUnit, .freshUnit]
    let more : List Operation := [
      .unify (.function [.var 1] (.primitive .text)) (.function [.record [] false] (.primitive .date)),
      .unifyUnits (.single (.var 1)) (.single (.unit ⟨"m", "metre"⟩))]
    let later := Store.empty.run (ops ++ .unify e f :: more)
    ((Store.empty.run ops).unify e f).result = .ok () ∧ later.typeValue? 1 = some (.record [] false) ∧
      later.unitValue? 1 = some (.single (.unit ⟨"m", "metre"⟩)) ∧ later.unify e f = ⟨later, .ok ()⟩ := by
  intro square e f ops more later
  have hab : compare "a" "b" = .lt := by decide
  have hac : compare "a" "c" = .lt := by decide
  have hbc : compare "b" "c" = .lt := by decide
  have hordered : ∀ op ∈ ops ++ .unify e f :: more, op.Ordered := by
    simp [ops, more, e, f, Operation.Ordered, Term.Ordered, Ascending, hab, hac, hbc]
  have hfactors : ∀ a : Atom VarId, (square a).factors = [(a, ⟨2, by decide, by decide⟩)] := fun _ => rfl
  -- The stores on the way, from the fresh variables to the last operation.
  let s₀ : Store := ⟨#[none, none], #[none, none]⟩
  let s₁ : Store := ⟨#[some (.array (.var 1)), none], #[some (square (.var 1)), none]⟩
  let s₂ : Store := ⟨#[some (.array (.var 1)), some (.record [] false)], #[some (square (.var 1)), none]⟩
  let s₃ : Store := ⟨#[some (.array (.var 1)), some (.record [] false)],
    #[some (square (.var 1)), some (.single (.unit ⟨"m", "metre"⟩))]⟩
  have h₀ : Store.empty.run ops = s₀ := rfl
  have h₁ : s₀.unify e f = ⟨s₁, .ok ()⟩ := by
    simp only [s₀, s₁, e, f, square]
    rfl
  have h₂ : s₁.run (more.take 1) = s₂ := by
    simp only [s₁, s₂, more, square]
    rfl
  have h₃ : s₁.run more = s₃ := by
    simp only [s₁, s₃, more, square]
    rfl
  have hfirst : (Store.empty.run ops).perform (.unify e f) = s₁ := by rw [h₀, Store.perform, h₁]
  have hlater : later = s₃ := by
    show Store.empty.run (ops ++ .unify e f :: more) = s₃
    rw [run_append, run_cons, hfirst, h₃]
  have hrun : Store.empty.Admits (ops ++ .unify e f :: more) := by
    refine admits_append.2 ⟨⟨trivial, trivial, trivial, trivial, trivial⟩, ?_, ?_, ?_, trivial⟩
    · rw [h₀]
      simp [s₀, Operation.Allowed, e, f, Term.Below, UnitTerm.Below, hfactors, Product.atoms, Product.single]
    · rw [hfirst]
      simp [s₁, Operation.Allowed, Term.Below]
    · rw [hfirst]
      show Operation.Allowed (s₁.run (more.take 1)) _
      rw [h₂]
      simp [s₂, Operation.Allowed, UnitTerm.Below, Product.atoms, Product.single]
  have hok : ((Store.empty.run ops).unify e f).result = .ok () := by rw [h₀, h₁]
  have hexact : (Store.empty.run ops).UnifiesExactly e f := by
    have hfits : Pending.exactWithin 5 ⟨[.types none e f], s₀⟩ = true := by
      simp only [s₀, e, f, square]
      rfl
    exact fun w hw => Pending.exact_of_exactWithin hfits (h₀ ▸ hw)
  have hexact' : later.UnifiesExactly e f := by
    have hfits : Pending.exactWithin 7 ⟨[.types none e f], s₃⟩ = true := by
      simp only [s₃, e, f, square]
      rfl
    exact fun w hw => Pending.exact_of_exactWithin hfits (hlater ▸ hw)
  exact ⟨hok, by rw [hlater]; rfl, by rw [hlater]; rfl, unify_stays_solved hrun hordered hok hexact hexact'⟩

end Store

end Tabula
