import Tabula.Proofs.GroundParts
import Tabula.Proofs.MostGeneral
import Tabula.Proofs.ReadingBack

/-!
# Ground types as terms

A ground type is also a term, one without variables, in which all fields are required and units have no descriptions.
A term that is read as a ground type becomes that very term when its variables are replaced by what they are read as.
So two terms that are read as the same ground type have a common instance, which is what unification looks for.

The term also determines what its variables are read as, since they stand somewhere in the ground type.

Optional fields are left out.  A field that may be missing is read as a required field with a wrapper, and the two
are different terms.
-/

namespace Tabula

open List (Forall₂)

namespace GroundType

mutual

/-- The type as a term. -/
def toTerm : GroundType → Term
  | primitive p => .primitive p
  | number unit => .number unit.lift
  | tagged name args => .tagged name (toTermArgs args)
  | record fields => .record (toTermFields fields) true
  | array element => .array (toTerm element)
  | function params result => .function (toTermParams params) (toTerm result)
termination_by structural t => t

/-- The arguments as terms. -/
def toTermArgs : List (Arg Measure GroundType) → List (Arg UnitTerm Term)
  | [] => []
  | .unit u :: args => .unit u.lift :: toTermArgs args
  | .type t :: args => .type (toTerm t) :: toTermArgs args
termination_by structural args => args

/-- The fields as terms, all of them required. -/
def toTermFields : List (Name × GroundType) → List (Field Term)
  | [] => []
  | (name, t) :: fields => ⟨name, toTerm t, true⟩ :: toTermFields fields
termination_by structural fields => fields

/-- The parameters as terms. -/
def toTermParams : List GroundType → List Term
  | [] => []
  | t :: params => toTerm t :: toTermParams params
termination_by structural params => params

end

theorem toTermArgs_eq (args : List (Arg Measure GroundType)) :
    toTermArgs args = args.map (Arg.map Measure.lift toTerm) := by
  induction args with
  | nil => rfl
  | cons a args ih => cases a <;> simp [toTermArgs, ih, Arg.map]

theorem toTermFields_eq (fields : List (Name × GroundType)) :
    toTermFields fields = fields.map fun f => ⟨f.1, f.2.toTerm, true⟩ := by
  induction fields with
  | nil => rfl
  | cons f fields ih => simp [toTermFields, ih]

theorem toTermParams_eq (params : List GroundType) : toTermParams params = params.map toTerm := by
  induction params with
  | nil => rfl
  | cons t params ih => simp [toTermParams, ih]

end GroundType

/-- A unit is a unit without variables, up to descriptions, if the two correspond. -/
theorem UnitTerm.bare_eq_lift_iff {u : UnitTerm} {m : Measure} :
    u.bare = m.lift ↔ Product.Corresponds Atom.Names m u := by
  have hfactor : ∀ (g : Atom VarId × Exponent) (f : Name × Exponent),
      (g.1.bare, g.2) = (Atom.unit (.named f.1), f.2) ↔ Atom.Names f.1 g.1 ∧ f.2 = g.2 := by
    rintro ⟨a, p⟩ ⟨name, q⟩
    cases a with
    | var id => simp [Atom.bare, Atom.Names]
    | unit w => simp [Atom.bare, Atom.Names, SingleUnit.named, eq_comm]
  have hfactors : u.bare = m.lift ↔ u.bare.factors = m.lift.factors :=
    ⟨congrArg Product.factors, Product.eq_of_factors_eq⟩
  rw [hfactors, Measure.factors_lift, bare, map_eq_map_iff_forall₂]
  simp only [hfactor]
  exact ⟨List.Forall₂.flip, List.Forall₂.flip⟩

/-- A unit is read as what is left when it is resolved, if that has no variables. -/
theorem Store.readUnit_eq_ok_iff_resolve {s : Store} {u : UnitTerm} {m : Measure} :
    s.readUnit u = .ok m ↔ (s.resolve u).bare = m.lift := by
  rw [UnitTerm.bare_eq_lift_iff]
  simp only [readUnit]
  split
  · rename_i m' hm'
    constructor
    · rintro ⟨⟩
      exact Measure.corresponds_of_toMeasure? hm'
    · intro h
      cases hm'.symm.trans (Measure.toMeasure?_of_corresponds h)
      rfl
  · rename_i hnone
    refine iff_of_false (fun h => by cases h) fun h => ?_
    cases hnone.symm.trans (Measure.toMeasure?_of_corresponds h)

/-- A unit without variables is read as the unit that it is. -/
theorem Store.readUnit_eq_ok_iff {s : Store} {u : UnitTerm} {m : Measure} (hu : ∀ id, .var id ∉ u.atoms) :
    s.readUnit u = .ok m ↔ u.bare = m.lift := by
  rw [readUnit_eq_ok_iff_resolve, resolve_eq_self hu]

namespace Term

variable {c : Catalog} {type type' : VarId → Except ReadError GroundType}
  {unit unit' : UnitTerm → Except ReadError Measure} {e : Term} {d : GroundType}

/-- The fields of all records are required. -/
def AllRequired : Term → Prop :=
  Everywhere (fun t => ∀ fields complete, t = .record fields complete → ∀ f ∈ fields, f.required = true)
    fun _ => True

/-- A term becomes what it is read as, if its variables and units become what they are read as. -/
theorem image_eq_toTerm {types : VarId → Term} (hrequired : e.AllRequired)
    (htypes : ∀ id d, e.Mentions id → type id = .ok d → types id = d.toTerm)
    (hunits : ∀ u m, e.HasUnit u → unit u = .ok m → u.bare = m.lift) (h : e.toGround c type unit = .ok d) :
    e.image types = d.toTerm := by
  induction e using induction_on_children generalizing d with
  | step e ih =>
      have hchild : ∀ t ∈ e.children, ∀ d, t.toGround c type unit = .ok d → t.image types = d.toTerm := fun t ht d =>
        ih t ht (hrequired.child t ht) (fun id d hid => htypes id d (.inside ht hid)) fun u m hu =>
          hunits u m (.inside ht hu)
      unfold image at hchild ⊢
      cases e with
      | var id => exact htypes id d .here h
      | primitive p =>
          cases h
          rfl
      | number u =>
          obtain ⟨m, hm, rfl⟩ := map_eq_ok_iff.1 h
          exact congrArg number (hunits u m (.here List.mem_cons_self) hm)
      | tagged name args =>
          obtain ⟨values, hvalues, h⟩ := bind_eq_ok_iff.1 h
          obtain ⟨rfl, -⟩ := groundTagged_eq_ok_iff.1 h
          rw [bind, bindArgs_eq, GroundType.toTerm, GroundType.toTermArgs_eq]
          refine congrArg (tagged name) (map_eq_map_iff_forall₂.2 ?_)
          refine (forall₂_and_mem (toGroundArgs_eq_ok hvalues)).imp ?_
          rintro a value ⟨ha, hagree⟩
          cases hagree with
          | unit hm => exact congrArg Arg.unit (hunits _ _ (.here (mem_units_tagged.2 ha)) hm)
          | type hd => exact congrArg Arg.type (hchild _ (mem_children_tagged.2 ha) _ hd)
      | record fields complete =>
          cases complete with
          | false => cases h
          | true =>
              obtain ⟨values, hvalues, rfl⟩ := map_eq_ok_iff.1 h
              rw [bind, bindFields_eq, GroundType.toTerm, GroundType.toTermFields_eq]
              refine congrArg (record · true) (map_eq_map_iff_forall₂.2 ?_)
              refine (forall₂_and_mem (toGroundFields_eq_ok hvalues)).imp ?_
              rintro f ⟨name, value⟩ ⟨hf, hname, d, hd, hfieldType⟩
              have hrequired := hrequired.node fields true rfl f hf
              rw [groundFieldType, hrequired] at hfieldType
              cases hfieldType
              simp only [Field.map, hname, hrequired, hchild f.type (List.mem_map_of_mem hf) value hd]
      | array element =>
          obtain ⟨d, hd, rfl⟩ := map_eq_ok_iff.1 h
          exact congrArg array (hchild element List.mem_cons_self d hd)
      | function params result =>
          obtain ⟨values, hvalues, h⟩ := bind_eq_ok_iff.1 h
          obtain ⟨d, hd, h⟩ := bind_eq_ok_iff.1 h
          cases h
          have hresult := hchild result (List.mem_append_right _ List.mem_cons_self) d hd
          have hparams : params.map (bind types UnitTerm.bare) = values.map GroundType.toTerm := by
            refine map_eq_map_iff_forall₂.2 ((forall₂_and_mem (toGroundParams_eq_ok hvalues)).imp ?_)
            rintro t value ⟨ht, hd⟩
            exact hchild t (List.mem_append_left _ ht) value hd
          rw [bind, bindParams_eq, GroundType.toTerm, GroundType.toTermParams_eq, hresult, hparams]

/-- The type of a field determines what it is made from, since a wrapper holds nothing else. -/
theorem groundFieldType_injective {required : Bool} {t t' : GroundType} (h : groundFieldType c required t = .ok d)
    (h' : groundFieldType c required t' = .ok d) : t = t' := by
  cases required with
  | true =>
      cases h
      cases h'
      rfl
  | false =>
      obtain ⟨rfl, -⟩ := Catalog.wrap_eq_ok_iff.1 (mapError_eq_ok_iff.1 h)
      obtain ⟨heq, -⟩ := Catalog.wrap_eq_ok_iff.1 (mapError_eq_ok_iff.1 h')
      cases heq
      rfl

/-- If a term is read as the same ground type in two ways, so are the terms directly below it. -/
theorem exists_toGround_of_children (h : e.toGround c type unit = .ok d) (h' : e.toGround c type' unit' = .ok d) :
    ∀ t ∈ e.children, ∃ d, t.toGround c type unit = .ok d ∧ t.toGround c type' unit' = .ok d := by
  intro t ht
  cases e with
  | var | primitive | number => cases ht
  | tagged name args =>
      obtain ⟨values, hvalues, h⟩ := bind_eq_ok_iff.1 h
      obtain ⟨values', hvalues', h'⟩ := bind_eq_ok_iff.1 h'
      obtain ⟨rfl, -⟩ := groundTagged_eq_ok_iff.1 h
      obtain ⟨heq, -⟩ := groundTagged_eq_ok_iff.1 h'
      cases heq
      have hboth := (toGroundArgs_eq_ok hvalues).mp (fun _ _ h h' => And.intro h h') (toGroundArgs_eq_ok hvalues')
      obtain ⟨value, -, hagree, hagree'⟩ := exists_of_forall₂ hboth.flip _ (mem_children_tagged.1 ht)
      cases hagree with
      | @type _ d hd =>
          cases hagree' with
          | type hd' => exact ⟨d, hd, hd'⟩
  | record fields complete =>
      cases complete with
      | false => cases h
      | true =>
          obtain ⟨values, hvalues, rfl⟩ := map_eq_ok_iff.1 h
          obtain ⟨values', hvalues', heq⟩ := map_eq_ok_iff.1 h'
          cases heq
          have hboth := (toGroundFields_eq_ok hvalues).mp (fun _ _ h h' => And.intro h h')
            (toGroundFields_eq_ok hvalues')
          obtain ⟨f, hf, rfl⟩ := List.mem_map.1 ht
          obtain ⟨value, -, hfield, hfield'⟩ := exists_of_forall₂ hboth.flip f hf
          obtain ⟨d, hd, hfieldType⟩ := hfield.type
          obtain ⟨d', hd', hfieldType'⟩ := hfield'.type
          cases groundFieldType_injective hfieldType hfieldType'
          exact ⟨d, hd, hd'⟩
  | array element =>
      obtain ⟨d, hd, rfl⟩ := map_eq_ok_iff.1 h
      obtain ⟨d', hd', heq⟩ := map_eq_ok_iff.1 h'
      cases heq
      obtain rfl := List.mem_singleton.1 ht
      exact ⟨d, hd, hd'⟩
  | function params result =>
      obtain ⟨values, hvalues, h⟩ := bind_eq_ok_iff.1 h
      obtain ⟨values', hvalues', h'⟩ := bind_eq_ok_iff.1 h'
      obtain ⟨d, hd, h⟩ := bind_eq_ok_iff.1 h
      obtain ⟨d', hd', h'⟩ := bind_eq_ok_iff.1 h'
      cases h
      cases h'
      rcases List.mem_append.1 ht with ht | ht
      · have hboth := (toGroundParams_eq_ok hvalues).mp (fun _ _ h h' => And.intro h h')
          (toGroundParams_eq_ok hvalues')
        obtain ⟨value, -, hvalue⟩ := exists_of_forall₂ hboth.flip t ht
        exact ⟨value, hvalue⟩
      · obtain rfl := List.mem_singleton.1 ht
        exact ⟨d, hd, hd'⟩

/-- What a term is read as determines what its variables are read as. -/
theorem exists_type_of_mentions {id : VarId} (hid : e.Mentions id) (h : e.toGround c type unit = .ok d)
    (h' : e.toGround c type' unit' = .ok d) : ∃ d, type id = .ok d ∧ type' id = .ok d := by
  induction hid generalizing d with
  | here => exact ⟨d, h, h'⟩
  | inside ht _ ih =>
      obtain ⟨_, hd, hd'⟩ := exists_toGround_of_children h h' _ ht
      exact ih hd hd'

end Term

end Tabula
