import Tabula.Catalog.Sample
import Tabula.Proofs.FollowingValues
import Tabula.Proofs.GroundTerms
import Tabula.Proofs.InferenceSound
import Tabula.Proofs.ReadingBack

/-!
# Inference is complete

If values of the variables make the generic type the same ground type as the concrete one, `infer` finds them, and it
finds no others.  The argument follows the phases of inference:

* The two types are lowered to terms without unit variables, in which all fields are required.
* The two terms have a common instance, in which the variables are replaced by their values, so unification succeeds.
* The store in which unification ends reads both terms as the same ground type, the one that the types stand for.
  What a term is read as determines what its variables are read as, so each variable is read as its value.

Optional fields are excluded, since a field that may be missing and a required field of the wrapper type have the same
ground type, but do not unify.  Open records and unit variables need not be excluded: with values for type variables
alone, a type in which they occur has no ground type.
-/

namespace Tabula

open List (Forall₂)

namespace Scheme

/-- The fields of all records are required. -/
def AllRequired (t : Scheme) : Prop :=
  ∀ fields complete, Part (.record fields complete) t → ∀ f ∈ fields, f.required = true

section Lowered

variable {b : TermBindings} {g : Scheme} {e : Term}

/-- The terms directly below a lowered type are the lowered types directly below it. -/
theorem children_of_toTerm (hg : ∀ name, g ≠ .ident name) (h : g.toTerm b = .ok e) :
    Forall₂ (fun t t' => t.toTerm b = .ok t') g.children e.children := by
  cases g with
  | primitive p =>
      cases h
      exact .nil
  | number u =>
      obtain ⟨v, -, rfl⟩ := map_eq_ok_iff.1 h
      exact .nil
  | ident name => exact absurd rfl (hg name)
  | apply name args =>
      obtain ⟨args', hargs', rfl⟩ := map_eq_ok_iff.1 h
      have hagree := toTermArgs_eq_ok_iff.1 hargs'
      clear h hargs' hg
      show Forall₂ _ (args.filterMap Arg.type?) (args'.filterMap Arg.type?)
      induction hagree with
      | nil => exact .nil
      | cons hfirst _ ih =>
          cases hfirst with
          | unit _ => exact ih
          | type ht => exact .cons ht ih
  | record fields complete =>
      obtain ⟨fields', hfields', rfl⟩ := map_eq_ok_iff.1 h
      show Forall₂ _ (fields.map Field.type) (fields'.map Field.type)
      rw [List.forall₂_map_left_iff, List.forall₂_map_right_iff]
      exact (toTermFields_eq_ok_iff.1 hfields').imp fun _ _ h => h.type
  | array element =>
      obtain ⟨t, ht, rfl⟩ := map_eq_ok_iff.1 h
      exact .cons ht .nil
  | function params result =>
      obtain ⟨params', hparams', h⟩ := bind_eq_ok_iff.1 h
      obtain ⟨result', hresult', h⟩ := bind_eq_ok_iff.1 h
      cases h
      exact List.rel_append (toTermParams_eq_ok_iff.1 hparams') (.cons hresult' .nil)

/-- A record comes from a record with the same fields, unless it is the value of a variable. -/
theorem exists_record_of_toTerm {fields' : List (Field Term)} {complete : Bool} (hg : ∀ name, g ≠ .ident name)
    (h : g.toTerm b = .ok (.record fields' complete)) :
    ∃ fields, g = .record fields complete ∧ Forall₂ (Field.Agree fun t t' => t.toTerm b = .ok t') fields fields' := by
  cases g with
  | primitive p => cases h
  | number u =>
      obtain ⟨_, -, heq⟩ := map_eq_ok_iff.1 h
      cases heq
  | ident name => exact absurd rfl (hg name)
  | apply name args =>
      obtain ⟨_, -, heq⟩ := map_eq_ok_iff.1 h
      cases heq
  | record fields complete' =>
      obtain ⟨_, hfields', heq⟩ := map_eq_ok_iff.1 h
      cases heq
      exact ⟨fields, rfl, toTermFields_eq_ok_iff.1 hfields'⟩
  | array element =>
      obtain ⟨_, -, heq⟩ := map_eq_ok_iff.1 h
      cases heq
  | function params result =>
      obtain ⟨_, -, h⟩ := bind_eq_ok_iff.1 h
      obtain ⟨_, -, h⟩ := bind_eq_ok_iff.1 h
      cases h

/-- A variable that stands for a part of the type occurs in the term. -/
theorem mentions_of_part {p : Scheme} {id : VarId} (hpart : Part p g) (hp : p.toTerm b = .ok (.var id))
    (h : g.toTerm b = .ok e) : e.Mentions id := by
  induction g using induction_on_children generalizing e with
  | step g ih =>
      rcases part_iff.1 hpart with rfl | ⟨t, ht, hpart⟩
      · cases hp.symm.trans h
        exact .here
      · have hg : ∀ name, g ≠ .ident name := by
          rintro name rfl
          cases ht
        obtain ⟨t', ht', htt'⟩ := exists_of_forall₂ (children_of_toTerm hg h).flip t ht
        exact .inside ht' (ih t ht hpart htt')

section TypeVariables

variable {m n : Nat} (hb : ∀ entry ∈ b.entries, ∃ id < m, entry.2 = .type (.var id))
include hb

theorem allRequired_of_toTerm (hrequired : g.AllRequired) (h : g.toTerm b = .ok e) : e.AllRequired := by
  induction g using induction_on_children generalizing e with
  | step g ih =>
      by_cases hident : ∃ name, g = .ident name
      · obtain ⟨name, rfl⟩ := hident
        obtain ⟨value, hvalue, rfl⟩ := map_eq_ok_iff.1 h
        cases value with
        | some t =>
            obtain ⟨id, -, heq⟩ := hb _ (Bindings.get?_eq_some (Bindings.typeVar_eq_ok_some_iff.1 hvalue))
            cases heq
            exact Term.everywhere_var.2 nofun
        | none => exact Term.everywhere_tagged.2 ⟨nofun, nofun, nofun⟩
      · have hg : ∀ name, g ≠ .ident name := fun name heq => hident ⟨name, heq⟩
        refine .intro ?_ (fun _ _ => trivial) fun t' ht' => ?_
        · rintro fields' complete rfl f' hf'
          obtain ⟨fields, rfl, hagree⟩ := exists_record_of_toTerm hg h
          obtain ⟨f, hf, hff'⟩ := exists_of_forall₂ hagree f' hf'
          exact hff'.required ▸ hrequired fields complete .self f hf
        · obtain ⟨t, ht, htt'⟩ := exists_of_forall₂ (children_of_toTerm hg h) t' ht'
          refine ih t ht (fun fields complete hpart => ?_) htt'
          exact hrequired fields complete (part_iff.2 (.inr ⟨t, ht, hpart⟩))

/-- There are no unit variables in the term, if no name is bound to a unit. -/
theorem plain_of_toTerm (hordered : g.Ordered) (hcomplete : g.Complete) (h : g.toTerm b = .ok e) : e.Plain := by
  refine everywhere_of_toTerm (fun t _ hregular => hregular) (fun name t ht => ?_) (fun u v hv id hid => ?_)
    hordered hcomplete h
  · obtain ⟨id, -, heq⟩ := hb _ (Bindings.get?_eq_some (Bindings.typeVar_eq_ok_some_iff.1 ht))
    cases heq
    exact Term.everywhere_var.2 nofun
  · obtain ⟨a, -, x, hx, hmem⟩ := Product.mem_atoms_of_bindM hv hid
    cases a with
    | var name =>
        obtain ⟨_, -, heq⟩ := hb _ (Bindings.get?_eq_some (Bindings.unit_eq_ok_iff.1 hx))
        cases heq
    | unit w =>
        cases hx
        cases List.mem_singleton.1 hmem

/-- A type with a ground type is lowered to a term that can be unified, and the term is read as the ground type
whenever the variables are read as their values. -/
theorem exists_toTerm_of_toGround {s : Substitution} {c : Catalog} {type : VarId → Except ReadError GroundType}
    {store : Store} {d : GroundType} (hordered : g.Ordered) (hrequired : g.AllRequired)
    (hread : b.ReadsAs s (Term.toGround c type store.readUnit)) (hd : g.toGround s c = .ok d) :
    ∃ e, g.toTerm b = .ok e ∧ e.Plain ∧ e.AllRequired ∧ e.Below m n ∧ ∀ type' (store' : Store),
      b.ReadsAs s (Term.toGround c type' store'.readUnit) → e.toGround c type' store'.readUnit = .ok d := by
  obtain ⟨e, he, -⟩ := ((Scheme.lowers hread g).eq_ok_iff d).1 hd
  have hcomplete := complete_of_toGround hd
  refine ⟨e, he, plain_of_toTerm hb hordered hcomplete he, allRequired_of_toTerm hb hrequired he, ?_,
    fun type' store' hread' => ?_⟩
  · refine (regular_and_below_of_toTerm (fun entry hentry => ?_) hordered hcomplete he).2
    obtain ⟨id, hid, heq⟩ := hb entry hentry
    rw [heq]
    exact ⟨id, hid, rfl⟩
  · obtain ⟨e', he', hed⟩ := ((Scheme.lowers hread' g).eq_ok_iff d).1 hd
    cases he.symm.trans he'
    exact hed

end TypeVariables

end Lowered

end Scheme

theorem Term.Everywhere.of_hasUnit {P : Term → Prop} {Q : UnitTerm → Prop} {t : Term} {u : UnitTerm}
    (ht : t.Everywhere P Q) (hu : t.HasUnit u) : Q u := by
  induction hu with
  | here hmem => exact ht.unit _ hmem
  | inside hchild _ ih => exact ih (ht.child _ hchild)

theorem Bindings.eq_of_entries_eq {υ τ : Type} {b b' : Bindings υ τ} (h : b.entries = b'.entries) : b = b' := by
  cases b
  cases b'
  cases h
  rfl

namespace Store

variable {c : Catalog} {s s' : Store} {e f t : Term}

/-- Units that are equal up to descriptions are read as the same unit. -/
theorem readUnit_sameResult {u v : UnitTerm} (hu : ∀ id, .var id ∉ u.atoms) (hv : ∀ id, .var id ∉ v.atoms)
    (h : u == v) : SameResult (s.readUnit u) (s.readUnit v) := by
  have hbare := UnitTerm.bare_eq_iff.2 h
  refine ⟨fun m hm => ?_, fun m hm => ?_⟩
  · exact (readUnit_eq_ok_iff hv).2 (hbare.symm.trans ((readUnit_eq_ok_iff hu).1 hm))
  · exact (readUnit_eq_ok_iff hu).2 (hbare.trans ((readUnit_eq_ok_iff hv).1 hm))

/-- A variable is read as its value. -/
theorem WellFormed.readType_var (hs : s.WellFormed) (c : Catalog) {id : VarId} (h : s.typeValue? id = some t) :
    s.readType c (.var id) = s.readType c t := by
  have hroot : s.root id = s.walk t := hs.walk_var h
  rw [hs.readType_eq, Term.toGround, hroot]
  cases t with
  | var other => rw [hs.readType_eq c (.var other), Term.toGround, walk]
  | _ => rfl

/-- Following values does not change what a term is read as, and the values stay when the store is extended. -/
theorem WellFormed.readType_walk (hs' : s'.WellFormed) (hextends : s.Extends s') (c : Catalog) (t : Term) :
    s'.readType c (s.walk t) = s'.readType c t :=
  walk_of (P := fun t' => s'.readType c t' = s'.readType c t)
    (fun id t' hvalue heq => (hs'.readType_var c (hextends.types id t' hvalue)).symm.trans heq) rfl

/-- Terms that are built alike from parts with the same readings have the same readings. -/
theorem WellFormed.readType_of_alike (hs : s.WellFormed)
    (h : Term.Alike (fun e f => SameResult (s.readType c e) (s.readType c f))
      (fun u v => SameResult (s.readUnit u) (s.readUnit v)) e f) : SameResult (s.readType c e) (s.readType c f) := by
  have hatMost : ∀ {e f : Term}, Term.Alike (fun e f => SameResult (s.readType c e) (s.readType c f))
      (fun u v => SameResult (s.readUnit u) (s.readUnit v)) e f → AtMost (s.readType c f) (s.readType c e) := by
    intro e f h
    rw [hs.readType_eq c e, hs.readType_eq c f]
    refine Term.toGround_atMost (h.converse (fun e f hef => ?_) fun u v huv => huv.backward) fun _ _ => .refl _
    have hback := hef.backward
    rwa [hs.readType_eq c e, hs.readType_eq c f] at hback
  exact ⟨hatMost (h.converse (fun _ _ => .symm) fun _ _ => .symm), hatMost h⟩

end Store

namespace Pending

variable {c : Catalog} {s : Store} {w w' : Pending}

/-- The store reads the two sides of each equation as the same. -/
def ReadAlike (c : Catalog) (s : Store) (w : Pending) : Prop :=
  ∀ q ∈ w.equations, q.Holds (fun e f => SameResult (s.readType c e) (s.readType c f))
    fun u v => SameResult (s.readUnit u) (s.readUnit v)

/-- What a later store reads as the same after a step was read as the same before it. -/
theorem Step.readAlike (h : Step w w') (hw : w.WellFormed) (hplain : w.Plain) (hs : s.WellFormed)
    (hextends : w'.store.Extends s) (hread : w'.ReadAlike c s) : w.ReadAlike c s := by
  have hbefore : w.store.Extends s := (h.wellFormed hw).2.trans hextends
  have hunwalk : ∀ {e f : Term}, SameResult (s.readType c (w.store.walk e)) (s.readType c (w.store.walk f)) →
      SameResult (s.readType c e) (s.readType c f) := by
    intro e f hwalk
    rwa [hs.readType_walk hbefore, hs.readType_walk hbefore] at hwalk
  cases h with
  | parts hdemand =>
      obtain ⟨⟨he, hf⟩, -⟩ := List.forall_mem_cons.1 hplain.equations
      obtain ⟨hqs, hrest⟩ := List.forall_mem_append.1 hread
      have halike := (Term.demand_hold_iff (hplain.walk he).node (hplain.walk hf).node hdemand).1 hqs
      exact List.forall_mem_cons.2 ⟨hunwalk (hs.readType_of_alike halike), hrest⟩
  | @value _ _ e f _ id t hdemand hoccurs =>
      obtain ⟨⟨he, hf⟩, -⟩ := List.forall_mem_cons.1 hw.equations
      obtain ⟨hid, -, -⟩ := hw.store.of_demand_value he hf hdemand
      have hvalue : s.typeValue? id = some t := by
        refine hextends.types id t ?_
        rw [Store.typeValue?_assignType (hw.store.ne_var_of_occurs hoccurs) hid, if_pos rfl]
      have hvar := hs.readType_var c hvalue
      refine List.forall_mem_cons.2 ⟨hunwalk ?_, hread⟩
      rcases Term.demand_value_cases hdemand with ⟨heq, heq'⟩ | ⟨heq, heq'⟩
      · rw [heq, heq', hvar]
        exact .refl _
      · rw [heq, heq', hvar]
        exact .refl _
  | units hunits =>
      obtain ⟨⟨hu, hv⟩, -⟩ := List.forall_mem_cons.1 hplain.equations
      obtain ⟨hbeq, -⟩ := (Store.unifyUnits_eq_ok_iff_beq hu hv).1 hunits
      exact List.forall_mem_cons.2 ⟨Store.readUnit_sameResult hu hv hbeq, hread⟩

theorem Leads.readAlike (h : w.Leads w') (hw : w.WellFormed) (hplain : w.Plain) (hs : s.WellFormed)
    (hextends : w'.store.Extends s) (hread : w'.ReadAlike c s) : w.ReadAlike c s := by
  induction h with
  | refl => exact hread
  | tail hleads hstep ih =>
      have hw' := (Leads.wellFormed hleads hw).1
      have hstore := (hstep.wellFormed hw').2.trans hextends
      exact ih hstore (hstep.readAlike hw' (Leads.everywhere hleads hplain) hs hextends hread)

end Pending

namespace Store

variable {s : Store} {e f : Term}

section Unified

variable (hs : s.WellFormed) (hfree : ∀ id, s.typeValue? id = none) (he : e.Plain) (hf : f.Plain)
  (hebelow : e.Below s.types.size s.units.size) (hfbelow : f.Below s.types.size s.units.size)
include hs hfree he hf hebelow hfbelow

theorem pending_wellFormed_and_plain :
    Pending.WellFormed ⟨[.types none e f], s⟩ ∧ Pending.Plain ⟨[.types none e f], s⟩ := by
  refine ⟨⟨hs, List.forall_mem_singleton.2 ⟨hebelow, hfbelow⟩⟩, fun id t hvalue => ?_,
    List.forall_mem_singleton.2 ⟨he, hf⟩⟩
  rw [hfree id] at hvalue
  cases hvalue

/-- Terms with a common instance unify, if no variable has a value yet. -/
theorem unify_eq_ok_of_image_eq {types : VarId → Term} (h : e.image types = f.image types) :
    (s.unify e f).result = .ok () := by
  obtain ⟨hw, hplain⟩ := pending_wellFormed_and_plain hs hfree he hf hebelow hfbelow
  have hsolved : Pending.SolvedBy types ⟨[.types none e f], s⟩ := by
    refine ⟨fun id t hvalue => ?_, List.forall_mem_singleton.2 h⟩
    rw [hfree id] at hvalue
    cases hvalue
  cases hresult : (s.unify e f).result with
  | ok _ => rfl
  | error err =>
      obtain ⟨w, hleads, hstuck⟩ := hs.exists_stuck_of_unify hebelow hfbelow hresult
      have hstill := (hleads.solvedBy_iff hw hplain).1 hsolved
      exact absurd hstill (hstuck.not_solvedBy (hleads.wellFormed hw).1 (hleads.everywhere hplain))

/-- Terms with the same ground type unify, if all fields are required. -/
theorem unify_eq_ok_of_toGround {c : Catalog} {type : VarId → Except ReadError GroundType} {r : Store} {d : GroundType}
    (herequired : e.AllRequired) (hfrequired : f.AllRequired) (hed : e.toGround c type r.readUnit = .ok d)
    (hfd : f.toGround c type r.readUnit = .ok d) : (s.unify e f).result = .ok () := by
  have himage : ∀ {t : Term}, t.Plain → t.AllRequired → t.toGround c type r.readUnit = .ok d →
      t.image (fun id => (type id).toOption.elim (.var id) GroundType.toTerm) = d.toTerm := by
    intro t ht hrequired htd
    refine Term.image_eq_toTerm hrequired (fun id d' _ hd' => ?_) (fun u m hu hm => ?_) htd
    · rw [hd']
      rfl
    · exact (readUnit_eq_ok_iff (ht.of_hasUnit hu)).1 hm
  exact unify_eq_ok_of_image_eq hs hfree he hf hebelow hfbelow
    ((himage he herequired hed).trans (himage hf hfrequired hfd).symm)

/-- Terms that were unified are read as the same. -/
theorem readType_sameResult_of_unify (c : Catalog) (h : (s.unify e f).result = .ok ()) :
    SameResult ((s.unify e f).store.readType c e) ((s.unify e f).store.readType c f) := by
  obtain ⟨hw, hplain⟩ := pending_wellFormed_and_plain hs hfree he hf hebelow hfbelow
  have hleads := Pending.leads_of_unify_ok h
  have hread := hleads.readAlike (c := c) hw hplain (hleads.wellFormed hw).1.store (.refl _) nofun
  exact hread (.types none e f) List.mem_cons_self

end Unified

/-- The names are bound to type variables of the store, each to another one. -/
structure Numbers (s : Store) (b : TermBindings) : Prop where
  vars : ∀ entry ∈ b.entries, ∃ id < s.types.size, entry.2 = .type (.var id)
  injective : ∀ x ∈ b.entries, ∀ y ∈ b.entries, x.2 = y.2 → x.1 = y.1

theorem Numbers.freshType {b : TermBindings} (h : s.Numbers b) (name : Name) :
    s.freshType.2.Numbers (b.insert name (.type (.var s.freshType.1))) := by
  have hvars : ∀ entry ∈ b.entries, entry.2 ≠ .type (.var s.types.size) := by
    intro entry hentry heq
    obtain ⟨id, hid, hentry⟩ := h.vars entry hentry
    rw [hentry] at heq
    cases heq
    exact Nat.lt_irrefl _ hid
  refine ⟨fun entry hentry => ?_, fun x hx y hy hxy => ?_⟩
  · rcases Ascending.mem_insert hentry with rfl | hentry
    · exact ⟨s.types.size, by simp [Store.freshType], rfl⟩
    · obtain ⟨id, hid, heq⟩ := h.vars entry hentry
      exact ⟨id, by simp [Store.freshType]; omega, heq⟩
  · rcases Ascending.mem_insert hx with rfl | hx <;> rcases Ascending.mem_insert hy with rfl | hy
    · rfl
    · exact absurd hxy.symm (hvars y hy)
    · exact absurd hxy (hvars x hx)
    · exact h.injective x hx y hy hxy

/-- Each name gets a variable of its own, and no other name gets one. -/
theorem Numbers.bindFresh {b : TermBindings} (h : s.Numbers b) (names : List Name) :
    (s.bindFresh b (names.map (Param.mk .type))).2.Numbers (s.bindFresh b (names.map (Param.mk .type))).1 ∧
      ∀ name, name ∈ (s.bindFresh b (names.map (Param.mk .type))).1.entries.map Prod.fst ↔
        name ∈ names ∨ name ∈ b.entries.map Prod.fst := by
  induction names generalizing s b with
  | nil => exact ⟨h, fun name => by simp [Store.bindFresh]⟩
  | cons first names ih =>
      obtain ⟨hnumbers, hkeys⟩ := ih (h.freshType first)
      refine ⟨hnumbers, fun name => (hkeys name).trans ?_⟩
      rw [Bindings.insert, Ascending.mem_map_insert, List.mem_cons, or_assoc, or_left_comm]

/-- What is read back for the names one by one is the solution. -/
theorem solve_eq_ok {c : Catalog} {b : TermBindings} {solution : Substitution}
    (h : Forall₂ (s.ReadsBack c) b.entries solution.entries) : s.solve c b = .ok solution := by
  have hfold : ∀ (entries : List (Name × Arg UnitTerm Term)) (values : List (Name × Arg Measure GroundType))
      (start : Substitution), Forall₂ (s.ReadsBack c) entries values →
      entries.foldlM (fun done entry => do return done.insert entry.1 (← s.readArg c entry.1 entry.2)) start =
        .ok (values.foldl (fun done value => done.insert value.1 value.2) start) := by
    intro entries values start hvalues
    induction hvalues generalizing start with
    | nil => rfl
    | cons hfirst _ ih =>
        rw [List.foldlM_cons, hfirst.2, hfirst.1]
        exact ih _
  have hentries : ∀ (values : List (Name × Arg Measure GroundType)) (start : Substitution),
      (values.foldl (fun done value => done.insert value.1 value.2) start).entries =
        values.foldl (fun done value => Ascending.insert Prod.fst value done) start.entries := by
    intro values
    induction values with
    | nil => exact fun _ => rfl
    | cons value values ih => exact fun start => ih _
  rw [solve, hfold _ _ _ h]
  refine congrArg Except.ok (Bindings.eq_of_entries_eq ?_)
  exact (hentries _ _).trans (Ascending.ofList_eq_self solution.ordered)

end Store

/-- The substitution gives a type to each of the names, and nothing to any other name. -/
structure Substitution.TypesExactly (s : Substitution) (names : List Name) : Prop where
  types : ∀ name ∈ names, ∃ d, s.get? name = some (.type d)
  others : ∀ name, name ∉ names → s.get? name = none

section Values

variable {names : List Name} {s : Substitution} {b : TermBindings} {type : VarId → Except ReadError GroundType}

/-- The name has a variable and a value, and the variable is read as the value. -/
def VariableOf (type : VarId → Except ReadError GroundType) (x : Name × Arg UnitTerm Term)
    (y : Name × Arg Measure GroundType) : Prop :=
  x.1 = y.1 ∧ ∃ id d, x.2 = .type (.var id) ∧ y.2 = .type d ∧ type id = .ok d

/-- The variables can be read as the values of their names, since different names have different variables. -/
theorem exists_variableOf {store : Store} (hb : store.Numbers b)
    (hkeys : ∀ name, name ∈ b.entries.map Prod.fst ↔ name ∈ names) (hs : s.TypesExactly names) :
    ∃ type, Forall₂ (VariableOf type) b.entries s.entries := by
  have hvalue : ∀ x ∈ b.entries, ∃ d, s.get? x.1 = some (.type d) := fun x hx =>
    hs.types x.1 ((hkeys x.1).1 (List.mem_map_of_mem hx))
  have htype : ∀ id, ∃ r : Except ReadError GroundType, ∀ x ∈ b.entries, x.2 = .type (.var id) →
      ∃ d, s.get? x.1 = some (.type d) ∧ r = .ok d := by
    intro id
    by_cases hid : ∃ x ∈ b.entries, x.2 = .type (.var id)
    · obtain ⟨x, hx, hxid⟩ := hid
      obtain ⟨d, hd⟩ := hvalue x hx
      refine ⟨.ok d, fun y hy hyid => ⟨d, ?_, rfl⟩⟩
      rwa [hb.injective y hy x hx (hyid.trans hxid.symm)]
    · exact ⟨.error .cyclicStore, fun x hx hxid => absurd ⟨x, hx, hxid⟩ hid⟩
  choose type htype using htype
  refine ⟨type, Ascending.forall₂_of_keys b.ordered s.ordered (fun y hy => ?_) fun x hx => ?_⟩
  · have hy := Bindings.get?_of_mem hy
    have hname : y.1 ∈ names := by
      by_contra hnot
      rw [hs.others y.1 hnot] at hy
      cases hy
    obtain ⟨x, hx, hxy⟩ := List.mem_map.1 ((hkeys y.1).2 hname)
    obtain ⟨id, -, hxid⟩ := hb.vars x hx
    obtain ⟨d, hd, hread⟩ := htype id x hx hxid
    rw [hxy, hy] at hd
    exact ⟨x, hx, hxy, hxy, id, d, hxid, Option.some.inj hd, hread⟩
  · obtain ⟨d, hd⟩ := hvalue x hx
    exact ⟨_, Bindings.get?_eq_some hd, rfl⟩

theorem readsAs_of_variableOf (h : Forall₂ (VariableOf type) b.entries s.entries) (c : Catalog) (store : Store) :
    b.ReadsAs s (Term.toGround c type store.readUnit) := by
  intro name
  have hrel := Ascending.find?_of_forall₂ (k := name) h fun _ _ hxy => hxy.1
  unfold Bindings.get?
  generalize Ascending.find? Prod.fst name b.entries = x, Ascending.find? Prod.fst name s.entries = y at hrel ⊢
  cases hrel with
  | none => exact .none
  | some hxy =>
      obtain ⟨-, id, d, hx, hy, hread⟩ := hxy
      refine .some ?_
      rw [hx, hy]
      exact .type hread

/-- A store that reads a term as the values do reads the variables of the term as their values. -/
theorem readsBack_of_variableOf {c : Catalog} {store : Store} {e : Term} {d : GroundType} (hstore : store.WellFormed)
    (hvalues : Forall₂ (VariableOf type) b.entries s.entries)
    (hmentions : ∀ x ∈ b.entries, ∀ id, x.2 = .type (.var id) → e.Mentions id)
    (hed : e.toGround c type store.readUnit = .ok d) (hread : store.readType c e = .ok d) :
    Forall₂ (store.ReadsBack c) b.entries s.entries := by
  rw [hstore.readType_eq] at hread
  refine ((List.forall₂_and_left _ _).2 ⟨hmentions, hvalues⟩).imp ?_
  rintro ⟨name, _⟩ ⟨_, _⟩ ⟨hmentions, rfl, id, d', rfl, rfl, hvalue⟩
  refine ⟨rfl, ?_⟩
  obtain ⟨d'', hd'', hroot⟩ := Term.exists_type_of_mentions (hmentions id rfl) hed hread
  cases hvalue.symm.trans hd''
  have hvar : store.readType c (.var id) = .ok d' := (hstore.readType_eq c (.var id)).trans hroot
  rw [Store.readArg, hvar]
  rfl

end Values

/-- Values of the variables that make the generic type the same ground type as the concrete one are inferred. -/
theorem infer_complete {c : Catalog} {names : List Name} {generic concrete : Scheme} {s : Substitution}
    {d : GroundType} (hgeneric : generic.Ordered) (hconcrete : concrete.Ordered) (hrequired : generic.AllRequired)
    (hrequired' : concrete.AllRequired) (hoccur : ∀ name ∈ names, Scheme.Part (.ident name) generic)
    (hs : s.TypesExactly names) (hd : generic.toGround s c = .ok d) (hd' : concrete.toGround .empty c = .ok d) :
    infer c (names.map (Param.mk .type)) generic concrete = .ok s := by
  have hbinds := Store.Binds.bindFresh (s := .empty) (b := .empty) ⟨.empty, fun _ => rfl, nofun⟩
    (names.map (Param.mk .type))
  obtain ⟨hnumbers, hkeys⟩ := Store.Numbers.bindFresh (s := .empty) (b := .empty) ⟨nofun, nofun⟩ names
  rw [infer_eq_ok_iff]
  generalize Store.empty.bindFresh .empty (names.map (Param.mk .type)) = fresh at hbinds hnumbers hkeys ⊢
  obtain ⟨b, store⟩ := fresh
  dsimp only at hbinds hnumbers hkeys ⊢
  replace hkeys : ∀ name, name ∈ b.entries.map Prod.fst ↔ name ∈ names := fun name =>
    (hkeys name).trans (or_iff_left nofun)
  obtain ⟨type, hvalues⟩ := exists_variableOf hnumbers hkeys hs
  have hreads := readsAs_of_variableOf hvalues c
  have hnone : ∀ type (r : Store), TermBindings.ReadsAs .empty .empty (Term.toGround c type r.readUnit) :=
    fun _ _ _ => .none
  have hempty : ∀ entry ∈ (Bindings.empty : TermBindings).entries, ∃ id < store.types.size,
      entry.2 = .type (.var id) := fun _ hentry => absurd hentry List.not_mem_nil
  -- Both types are lowered, and their terms have the same ground type under the values of the variables.
  obtain ⟨e, he, heplain, herequired, hebelow, hed⟩ :=
    Scheme.exists_toTerm_of_toGround hnumbers.vars hgeneric hrequired (hreads .empty) hd
  obtain ⟨f, hf, hfplain, hfrequired, hfbelow, hfd⟩ :=
    Scheme.exists_toTerm_of_toGround hempty hconcrete hrequired' (hnone type .empty) hd'
  have hunify := Store.unify_eq_ok_of_toGround hbinds.wellFormed hbinds.types heplain hfplain hebelow hfbelow
    herequired hfrequired (hed type .empty (hreads .empty)) (hfd type .empty (hnone type .empty))
  refine ⟨e, f, he, hf, hunify, Store.solve_eq_ok ?_⟩
  -- The final store reads the concrete term as its ground type, so it reads the generic term as that type too.
  have hfinal := ((Pending.leads_of_unify_ok hunify).wellFormed
    ⟨hbinds.wellFormed, List.forall_mem_singleton.2 ⟨hebelow, hfbelow⟩⟩).1.store
  have hsame := Store.readType_sameResult_of_unify hbinds.wellFormed hbinds.types heplain hfplain hebelow hfbelow c
    hunify
  generalize (store.unify e f).store = final at hfinal hsame ⊢
  have hread : final.readType c e = .ok d := by
    refine hsame.backward d ?_
    rw [hfinal.readType_eq]
    exact hfd _ final (hnone _ final)
  refine readsBack_of_variableOf hfinal hvalues (fun x hx id hid => ?_) (hed type final (hreads final)) hread
  have hname : x.1 ∈ names := (hkeys x.1).1 (List.mem_map_of_mem hx)
  refine Scheme.mentions_of_part (hoccur x.1 hname) ?_ he
  rw [Scheme.toTerm, Bindings.typeVar_eq_ok_some_iff.2 (hid ▸ Bindings.get?_of_mem hx)]
  rfl

/-- A variable that occurs twice has the name of a declared type, and the declared type itself is written with an
empty list of arguments on one side and as a name on the other. -/
theorem infer_complete_of_shadowed_type :
    let shape (declared repeated other : Scheme) : Scheme :=
      .function [.apply "List" [.type repeated], declared]
        (.record [⟨"first", repeated, true⟩, ⟨"second", other, true⟩] true)
    let generic := shape (.apply "Colour" []) (.ident "Colour") (.ident "a")
    let concrete := shape (.ident "Colour") (.primitive .text) (.apply "Colour" [])
    let s : Substitution := ⟨[("Colour", .type (.primitive .text)), ("a", .type (.tagged "Colour" []))], by decide⟩
    generic.Ordered ∧ concrete.Ordered ∧ generic.AllRequired ∧ concrete.AllRequired ∧
      (∀ name ∈ ["a", "Colour"], Scheme.Part (.ident name) generic) ∧ s.TypesExactly ["a", "Colour"] ∧
      (∃ d, generic.toGround s .sample = .ok d ∧ concrete.toGround .empty .sample = .ok d) ∧
      infer .sample [⟨.type, "a"⟩, ⟨.type, "Colour"⟩] generic concrete = .ok s := by
  intro shape generic concrete s
  have hordered : ∀ {declared repeated other : Scheme}, declared.Ordered → repeated.Ordered → other.Ordered →
      (shape declared repeated other).Ordered := by
    intro declared repeated other hdeclared hrepeated hother
    have hnames : compare "first" "second" = .lt := by decide
    refine .function ?_ (.record ?_ ?_)
    · refine List.forall_mem_cons.2 ⟨.apply fun t ht => ?_, List.forall_mem_singleton.2 hdeclared⟩
      cases List.mem_singleton.1 ht
      exact hrepeated
    · simp [Ascending, hnames]
    · exact List.forall_mem_cons.2 ⟨hrepeated, List.forall_mem_singleton.2 hother⟩
  have hcolour : (Scheme.apply "Colour" []).Ordered := .apply fun _ ht => absurd ht List.not_mem_nil
  have hgeneric : generic.AllRequired := by
    simp [Scheme.AllRequired, generic, shape]
  have hconcrete : concrete.AllRequired := by
    simp [Scheme.AllRequired, concrete, shape]
  have hoccur : ∀ name ∈ ["a", "Colour"], Scheme.Part (.ident name) generic := by
    simp [generic, shape]
  have htypes : s.TypesExactly ["a", "Colour"] := by
    refine ⟨?_, ?_⟩
    · exact List.forall_mem_cons.2 ⟨⟨_, rfl⟩, List.forall_mem_singleton.2 ⟨_, rfl⟩⟩
    · intro name hname
      cases hget : s.get? name with
      | none => rfl
      | some value =>
          have hmem := Bindings.get?_eq_some hget
          simp only [s, List.mem_cons, List.not_mem_nil, or_false, Prod.mk.injEq] at hmem
          rcases hmem with ⟨rfl, -⟩ | ⟨rfl, -⟩
          · exact absurd (by simp) hname
          · exact absurd (by simp) hname
  have hd : ∃ d, generic.toGround s .sample = .ok d ∧ concrete.toGround .empty .sample = .ok d := ⟨_, rfl, rfl⟩
  refine ⟨hordered hcolour (.ident _) (.ident _), hordered (.ident _) (.primitive _) hcolour, hgeneric, hconcrete,
    hoccur, htypes, hd, ?_⟩
  obtain ⟨d, hd, hd'⟩ := hd
  exact infer_complete (hordered hcolour (.ident _) (.ident _)) (hordered (.ident _) (.primitive _) hcolour) hgeneric
    hconcrete hoccur htypes hd hd'

end Tabula
