import Tabula.Proofs.BuiltAlike
import Tabula.Proofs.Results
import Tabula.Proofs.StoreInvariant
import Tabula.Proofs.UnitPowers
import Tabula.Store.Readback

/-!
# What a term is read as

A term is read as a ground type if its type variables stand for ground types and its unit variables for powers
of declared units.  The reading depends on the parts of a term only through their readings.  Hence a store
that was made by unification gives the two terms the same reading, and what `Store.readType` gives is the
reading that the store determines.

Readings that fail are not told apart, and nothing is said about the errors.
-/

namespace Tabula

open List (Forall₂)

namespace Term

variable {c : Catalog} {type type' : VarId → Except ReadError GroundType}
  {unit unit' : UnitTerm → Except ReadError Measure} {e f t : Term}

section Parts

variable (c type type' unit unit')

/-- Whatever the first term is read as, the second one is read as as well. -/
def ReadAs (s t : Term) : Prop :=
  AtMost (s.toGround c type unit) (t.toGround c type' unit')

end Parts

theorem toGroundArgs_atMost {as bs : List (Arg UnitTerm Term)}
    (h : Forall₂ (Arg.Agree (fun u v => AtMost (unit u) (unit' v)) (ReadAs c type type' unit unit')) as bs) :
    AtMost (toGroundArgs c type unit as) (toGroundArgs c type' unit' bs) := by
  induction h with
  | nil => exact .refl _
  | cons hab _ ih =>
      cases hab with
      | unit h => exact h.bind fun _ => ih.bind fun _ => .refl _
      | type h => exact h.bind fun _ => ih.bind fun _ => .refl _

theorem toGroundFields_atMost {fs gs : List (Field Term)}
    (h : Forall₂ (Field.Agree (ReadAs c type type' unit unit')) fs gs) :
    AtMost (toGroundFields c type unit fs) (toGroundFields c type' unit' gs) := by
  induction h with
  | nil => exact .refl _
  | @cons f g _ _ hfg _ ih =>
      obtain ⟨hname, htype, hrequired⟩ := hfg
      simp only [toGroundFields, hname, hrequired]
      exact htype.bind fun _ => (AtMost.refl _).bind fun _ => ih.bind fun _ => .refl _

theorem toGroundParams_atMost {ss ts : List Term} (h : Forall₂ (ReadAs c type type' unit unit') ss ts) :
    AtMost (toGroundParams c type unit ss) (toGroundParams c type' unit' ts) := by
  induction h with
  | nil => exact .refl _
  | cons hst _ ih => exact hst.bind fun _ => ih.bind fun _ => .refl _

/-- The reading of a term depends on its parts only through their readings. -/
theorem toGround_atMost
    (h : Alike (ReadAs c type type' unit unit') (fun u v => AtMost (unit u) (unit' v)) e f)
    (hvar : ∀ id, e = .var id → AtMost (type id) (type' id)) : ReadAs c type type' unit unit' e f := by
  cases h with
  | var id => exact hvar id rfl
  | primitive p => exact .refl _
  | number h => exact h.map _
  | tagged h => exact (toGroundArgs_atMost h).bind fun _ => .refl _
  | @record fields fields' complete h =>
      cases complete with
      | true => exact (toGroundFields_atMost h).map _
      | false => exact .of_error
  | array h => exact h.map _
  | function hparams hresult =>
      exact (toGroundParams_atMost hparams).bind fun _ => AtMost.bind hresult fun _ => .refl _

/-- The unit occurs in the term. -/
inductive HasUnit (u : UnitTerm) : Term → Prop where
  | here {t : Term} (h : u ∈ t.units) : HasUnit u t
  | inside {s t : Term} (hs : s ∈ t.children) (h : HasUnit u s) : HasUnit u t

/-- The reading of a term depends on how the variables and units in it are read. -/
theorem toGround_atMost_self (hvar : ∀ id, t.Mentions id → AtMost (type id) (type' id))
    (hunit : ∀ u, t.HasUnit u → AtMost (unit u) (unit' u)) : ReadAs c type type' unit unit' t t := by
  induction t using induction_on_children with
  | step t ih =>
      have hself : Alike (ReadAs c type type' unit unit') (fun u v => AtMost (unit u) (unit' v)) t t :=
        .self (fun u hu => hunit u (.here hu)) fun s hs =>
          ih s hs (fun id hid => hvar id (.inside hs hid)) fun u hu => hunit u (.inside hs hu)
      refine toGround_atMost hself ?_
      rintro id rfl
      exact hvar id .here

end Term

/-- What the variables stand for, type variables for ground types and unit variables for powers of declared
units.  A type variable may stand for nothing. -/
structure Reading where
  types : VarId → Option GroundType
  units : VarId → Name → Int

namespace Reading

variable {c : Catalog} {r : Reading} {u : UnitTerm} {id : VarId}

/-- What a type variable is read as. -/
def type (r : Reading) (id : VarId) : Except ReadError GroundType :=
  match r.types id with
  | some d => .ok d
  | none => .error (.unsolvedVar id .type)

open Classical in
/-- What a unit is read as, if its powers are in range. -/
noncomputable def unit (r : Reading) (u : UnitTerm) : Except ReadError Measure :=
  if h : ∃ m : Measure, m.powers = u.powers r.units then .ok h.choose else .error .cyclicStore

/-- What a term is read as. -/
noncomputable def ground (r : Reading) (c : Catalog) (t : Term) : Except ReadError GroundType :=
  t.toGround c r.type r.unit

theorem type_eq_ok_iff {d : GroundType} : r.type id = .ok d ↔ r.types id = some d := by
  unfold type
  split <;> simp [*]

theorem unit_eq_ok_iff {m : Measure} : r.unit u = .ok m ↔ m.powers = u.powers r.units := by
  unfold unit
  split
  · rename_i h
    constructor
    · rintro ⟨⟩
      exact h.choose_spec
    · intro hm
      rw [Measure.eq_of_powers_eq (h.choose_spec.trans hm.symm)]
  · rename_i h
    exact iff_of_false nofun fun hm => h ⟨m, hm⟩

theorem unit_congr {v : UnitTerm} (h : u.powers r.units = v.powers r.units) : r.unit u = r.unit v := by
  rw [unit, unit, h]

/-- Terms that are built alike from parts with equal readings have equal readings. -/
theorem ground_of_alike {e f : Term}
    (h : Term.Alike (fun s t => SameResult (r.ground c s) (r.ground c t))
      (fun u v => u.powers r.units = v.powers r.units) e f) :
    SameResult (r.ground c e) (r.ground c f) := by
  have hatMost : ∀ {e f : Term}, Term.Alike (fun s t => SameResult (r.ground c s) (r.ground c t))
      (fun u v => u.powers r.units = v.powers r.units) e f → AtMost (r.ground c f) (r.ground c e) := by
    intro e f h
    refine Term.toGround_atMost (h.converse (fun s t hst => hst.backward) fun u v huv => ?_) fun _ _ => .refl _
    rw [unit_congr huv]
    exact .refl _
  exact ⟨hatMost (h.converse (fun _ _ => .symm) fun _ _ => .symm), hatMost h⟩

end Reading

namespace Store

variable {c : Catalog} {r : Reading} {s s' : Store}

/-- Variables that have a value are read as their value. -/
structure ReadBy (c : Catalog) (r : Reading) (s : Store) : Prop where
  types : ∀ id t, s.typeValue? id = some t → SameResult (r.type id) (r.ground c t)
  units : s.UnitsModelledBy r.units

theorem ReadBy.of_extends (h : s'.ReadBy c r) (hextends : s.Extends s') : s.ReadBy c r :=
  ⟨fun id t hvalue => h.types id t (hextends.types id t hvalue), h.units.of_extends hextends⟩

theorem ReadBy.ground_walk (h : s.ReadBy c r) (t : Term) : SameResult (r.ground c (s.walk t)) (r.ground c t) :=
  walk_of (P := fun t' => SameResult (r.ground c t') (r.ground c t))
    (fun id t' hvalue hsame => (h.types id t' hvalue).symm.trans hsame) (.refl _)

theorem ReadBy.ground_of_walk (h : s.ReadBy c r) {e f : Term}
    (hwalk : SameResult (r.ground c (s.walk e)) (r.ground c (s.walk f))) :
    SameResult (r.ground c e) (r.ground c f) :=
  (h.ground_walk e).symm.trans (hwalk.trans (h.ground_walk f))

/-- The variables of a well formed store can be read as their values. -/
theorem WellFormed.exists_readBy (hs : s.WellFormed) (c : Catalog) : ∃ r, s.ReadBy c r := by
  obtain ⟨units, hunits⟩ := hs.exists_unitsModelledBy
  -- What a variable is read as is given along the edges, since the reading of its value depends on no others.
  let F (id : VarId) (types : VarId → Option GroundType) : Option GroundType :=
    (s.typeValue? id).bind fun t => (Reading.ground ⟨types, units⟩ c t).toOption
  have hF : ∀ id types types', (∀ j, s.TypeEdge id j → types j = types' j) → F id types = F id types' := by
    intro id types types' h
    dsimp only [F]
    cases hvalue : s.typeValue? id with
    | none => rfl
    | some t =>
      have hatMost : ∀ {types types' : VarId → Option GroundType}, (∀ j, s.TypeEdge id j → types j = types' j) →
          AtMost (Reading.ground ⟨types, units⟩ c t) (Reading.ground ⟨types', units⟩ c t) := by
        intro types types' h
        refine Term.toGround_atMost_self (fun j hj d hd => ?_) fun u _ => .refl _
        exact Reading.type_eq_ok_iff.2 ((h j ⟨t, hvalue, hj⟩).symm.trans (Reading.type_eq_ok_iff.1 hd))
      exact SameResult.toOption_eq ⟨hatMost h, hatMost fun j hj => (h j hj).symm⟩
  obtain ⟨types, htypes⟩ := hs.typesAcyclic.exists_fixpoint (fun _ _ => hs.lt_of_typeEdge) F hF
  refine ⟨⟨types, units⟩, fun id t hvalue => ?_, hunits⟩
  have hid : types id = (Reading.ground ⟨types, units⟩ c t).toOption := by
    rw [htypes id]
    dsimp only [F]
    rw [hvalue, Option.bind_some]
  exact ⟨fun d hd => toOption_eq_some_iff.1 (hid.symm.trans (Reading.type_eq_ok_iff.1 hd)),
    fun d hd => Reading.type_eq_ok_iff.2 (hid.trans (toOption_eq_some_iff.2 hd))⟩

/-- The unit is met when the term is read back. -/
inductive Meets (s : Store) (u : UnitTerm) : Term → Prop where
  | here {t : Term} (h : t.HasUnit u) : Meets s u t
  | value {t value : Term} {id : VarId} (hid : t.Mentions id) (hvalue : s.typeValue? id = some value)
      (h : Meets s u value) : Meets s u t

theorem Meets.exists_of_var {u : UnitTerm} {id : VarId} (h : s.Meets u (.var id)) :
    ∃ t, s.typeValue? id = some t ∧ s.Meets u t := by
  cases h with
  | here h =>
      cases h with
      | here h => cases h
      | inside hs => cases hs
  | value hmentions hvalue h =>
      cases hmentions with
      | here => exact ⟨_, hvalue, h⟩
      | inside hs => cases hs

theorem Meets.of_mentions {u : UnitTerm} {t : Term} {id : VarId} (h : s.Meets u (.var id))
    (hid : t.Mentions id) : s.Meets u t := by
  obtain ⟨value, hvalue, h⟩ := h.exists_of_var
  exact .value hid hvalue h

theorem Meets.of_walk {u : UnitTerm} {t : Term} (h : s.Meets u (s.walk t)) : s.Meets u t :=
  walk_of (P := fun t' => s.Meets u t' → s.Meets u t) (fun _ _ hvalue hP h => hP (.value .here hvalue h))
    (fun h => h) h

/-- A unit that is read back is read as its powers say. -/
theorem UnitsModelledBy.readUnit_atMost {u : UnitTerm} (h : s.UnitsModelledBy r.units) (hu : s.ResolvesExactly u) :
    AtMost (s.readUnit u) (r.unit u) := by
  intro m hm
  simp only [readUnit] at hm
  split at hm
  · rename_i m' hmeasure
    cases hm
    exact Reading.unit_eq_ok_iff.2 ((UnitTerm.powers_of_toMeasure? hmeasure).trans (h.powers_resolve hu))
  · cases hm

/-- A term that is read back is read as its variables say. -/
theorem ReadBy.readType_atMost (h : s.ReadBy c r) {t : Term} (ht : ∀ u, s.Meets u t → s.ResolvesExactly u) :
    AtMost (s.readType c t) (r.ground c t) := by
  have hread : ∀ n t, (∀ u, s.Meets u t → s.ResolvesExactly u) →
      AtMost (s.readTypeWithin c n t) (r.ground c t) := by
    intro n
    induction n with
    | zero => exact fun t _ => .of_error
    | succ n ih =>
        intro t ht
        refine Term.toGround_atMost_self (fun id hid => ?_) fun u hu =>
          h.units.readUnit_atMost (ht u (.here hu))
        -- The end of a chain of variables is read as each variable in it.
        have hroot : AtMost (s.readTypeWithin c n (s.root id)) (r.type id) :=
          (ih _ fun u hu => ht u (.of_mentions (.of_walk hu) hid)).trans (h.ground_walk (.var id)).forward
        split
        · exact .of_error
        · exact hroot
  exact hread _ t ht

end Store

namespace Pending

variable {c : Catalog} {r : Reading} {w w' : Pending}

/-- Variables that have a value are read as their value, and both sides of each equation are read as the
same. -/
structure ReadBy (c : Catalog) (r : Reading) (w : Pending) : Prop where
  store : w.store.ReadBy c r
  equations : ∀ q ∈ w.equations, q.Holds (fun e f => SameResult (r.ground c e) (r.ground c f))
    fun u v => u.powers r.units = v.powers r.units

/-- If the next equation is one between units, all powers fit when they are resolved. -/
def Exact (w : Pending) : Prop :=
  match w.equations with
  | .units u v :: _ => w.store.ResolvesExactly u ∧ w.store.ResolvesExactly v
  | _ => True

instance : DecidablePred Exact
  | ⟨.units u v :: _, s⟩ => inferInstanceAs (Decidable ((s.resolve? u).isSome ∧ (s.resolve? v).isSome))
  | ⟨[], _⟩ | ⟨.types _ _ _ :: _, _⟩ | ⟨.failure _ :: _, _⟩ => isTrue trivial

/-- All powers fit from here on, as is seen in at most `n` states. -/
def exactWithin : Nat → Pending → Bool
  | 0, _ => false
  | n + 1, w =>
      decide w.Exact &&
        match w.next? with
        | none => true
        | some w' => exactWithin n w'

theorem exact_of_exactWithin {n : Nat} (h : exactWithin n w = true) (hleads : w.Leads w') : w'.Exact := by
  induction n generalizing w with
  | zero => cases h
  | succ n ih =>
      obtain ⟨hw, hnext⟩ := (Bool.and_eq_true _ _).mp h
      rcases hleads.cases_head with rfl | ⟨w₁, hstep, hleads⟩
      · exact of_decide_eq_true hw
      · rw [hstep.next?_eq] at hnext
        exact ih hnext hleads

/-- What is read as the same after a step was so before it. -/
theorem Step.readBy (h : Step w w') (hw : w.WellFormed) (hregular : w.Everywhere Term.Regular fun _ => True)
    (hexact : w.Exact) (hread : w'.ReadBy c r) : w.ReadBy c r := by
  -- A step keeps all values, so what reads the store after it reads the store before it.
  have hstore : w.store.ReadBy c r := hread.store.of_extends (h.wellFormed hw).2
  cases h with
  | @parts s field e f qs rest hdemand =>
      obtain ⟨⟨he, hf⟩, -⟩ := List.forall_mem_cons.1 hregular.equations
      have hwalk : ∀ {t : Term}, t.Everywhere Term.Regular (fun _ => True) → (s.walk t).Regular := fun ht =>
        (Store.walk_of (fun id t hvalue _ => hregular.store id t hvalue) ht).node
      obtain ⟨hqs, hrest⟩ := List.forall_mem_append.1 hread.equations
      have hsame := Reading.ground_of_alike ((Term.demand_hold_iff (hwalk he) (hwalk hf) hdemand).1 hqs)
      exact ⟨hstore, List.forall_mem_cons.2 ⟨hstore.ground_of_walk hsame, hrest⟩⟩
  | @value s field e f rest id t hdemand hoccurs =>
      obtain ⟨⟨he, hf⟩, -⟩ := List.forall_mem_cons.1 hw.equations
      obtain ⟨hid, -, -⟩ := hw.store.of_demand_value he hf hdemand
      have hvalue : (s.assignType id t).typeValue? id = some t := by
        rw [Store.typeValue?_assignType (hw.store.ne_var_of_occurs hoccurs) hid, if_pos rfl]
      have hsame : SameResult (r.ground c (s.walk e)) (r.ground c (s.walk f)) := by
        rcases Term.demand_value_cases hdemand with ⟨hvar, rfl⟩ | ⟨hvar, rfl⟩
        · rw [hvar]
          exact hread.store.types id _ hvalue
        · rw [hvar]
          exact (hread.store.types id _ hvalue).symm
      exact ⟨hstore, List.forall_mem_cons.2 ⟨hstore.ground_of_walk hsame, hread.equations⟩⟩
  | @units s s' u v rest hunits =>
      obtain ⟨⟨hu, hv⟩, -⟩ := List.forall_mem_cons.1 hw.equations
      obtain ⟨huexact, hvexact⟩ := hexact
      have hpowers := hread.store.units.powers_eq_of_unifyUnits hw.store hu hv huexact hvexact hunits
      exact ⟨hstore, List.forall_mem_cons.2 ⟨hpowers, hread.equations⟩⟩

/-- What is read as the same at the end was so at the beginning. -/
theorem Leads.readBy (h : w.Leads w') (hw : w.WellFormed) (hregular : w.Everywhere Term.Regular fun _ => True)
    (hexact : ∀ w'', w.Leads w'' → w''.Exact) (hread : w'.ReadBy c r) : w.ReadBy c r := by
  induction h with
  | refl => exact hread
  | tail hleads hstep ih =>
      exact ih (hstep.readBy (Leads.wellFormed hleads hw).1 (Leads.everywhere hleads hregular)
        (hexact _ hleads) hread)

end Pending

/-- After two terms were unified, the variables can be read as their values, and then both terms are read as
the same. -/
theorem Store.exists_readBy_of_unify (c : Catalog) {s : Store} {e f : Term} (hs : s.WellFormed)
    (hvalues : ∀ id t, s.typeValue? id = some t → t.Everywhere Term.Regular fun _ => True)
    (he : e.Everywhere Term.Regular fun _ => True) (hebelow : e.Below s.types.size s.units.size)
    (hf : f.Everywhere Term.Regular fun _ => True) (hfbelow : f.Below s.types.size s.units.size)
    (hexact : ∀ w, Pending.Leads ⟨[.types none e f], s⟩ w → w.Exact) (h : (s.unify e f).result = .ok ()) :
    ∃ r, (s.unify e f).store.ReadBy c r ∧ SameResult (r.ground c e) (r.ground c f) := by
  have hleads := Pending.leads_of_unify_ok h
  have hw : Pending.WellFormed ⟨[.types none e f], s⟩ := ⟨hs, List.forall_mem_singleton.2 ⟨hebelow, hfbelow⟩⟩
  have hregular : Pending.Everywhere Term.Regular (fun _ => True) ⟨[.types none e f], s⟩ :=
    ⟨hvalues, List.forall_mem_singleton.2 ⟨he, hf⟩⟩
  obtain ⟨r, hr⟩ := (hleads.wellFormed hw).1.store.exists_readBy c
  have hread := hleads.readBy hw hregular hexact ⟨hr, nofun⟩
  exact ⟨r, hr, hread.equations (.types none e f) List.mem_cons_self⟩

end Tabula
