import Tabula.Proofs.CatalogInvariant
import Tabula.Proofs.RoundTrip
import Tabula.Proofs.ValidTypes

/-!
# Ground types as texts

The text of a ground type is read back as the ground type.  The type has to be valid in the catalog, so that its
tagged types are declared; their names can be written because everything that is declared has such a name.  Fields
and units are not in the catalog's hands: the names of fields must be names, and units must be declared.

What is read differs from what was written in the descriptions of units, which a ground type does not have.
-/

namespace Tabula

open List (Forall₂)

section Equality

variable {s : Substitution} {c : Catalog}

theorem Substitution.atom_of_compare {a b : Atom Name} (h : compare a b = .eq) : s.atom a = s.atom b := by
  cases a with
  | var v => rw [Atom.compare_var_eq_iff.1 h]
  | unit u =>
      obtain ⟨w, rfl, hname⟩ := Atom.compare_unit_eq_iff.1 h
      rw [Substitution.atom, Substitution.atom, hname]

/-- Descriptions have no influence on the value of a unit. -/
theorem UnitScheme.toMeasure_of_beq {u v : UnitScheme} (h : u == v) : u.toMeasure s = v.toMeasure s := by
  have hfactors := Product.beq_iff.1 h
  rw [toMeasure, toMeasure, Product.bindM, Product.bindM]
  generalize u.factors = fs at hfactors
  generalize v.factors = gs at hfactors
  congr 1
  induction hfactors with
  | nil => rfl
  | cons hfg _ ih => rw [List.mapM_cons, List.mapM_cons, ih, Substitution.atom_of_compare hfg.1, hfg.2]

namespace Scheme

theorem groundUnit_of_beq {u v : UnitScheme} (h : u == v) : groundUnit s u = groundUnit s v := by
  rw [groundUnit, groundUnit, UnitScheme.toMeasure_of_beq h]

/-- The part that is reported does not matter for what is found. -/
theorem groundTagged_part (name : Name) (values : List (Arg Measure GroundType)) (part part' : Unresolved) :
    SameResult (groundTagged c name values part) (groundTagged c name values part') := by
  unfold groundTagged
  split
  · exact .refl _
  · exact .of_errors
  · exact .refl _

/-- Equal types have the same ground type. -/
theorem toGround_of_beq {t t' : Scheme} (h : t == t') : SameResult (t.toGround s c) (t'.toGround s c) := by
  replace h : beq t t' = true := h
  induction t using induction_on_children generalizing t' with
  | step t ih =>
      cases t with
      | primitive p =>
          cases t' <;> simp only [beq, Bool.false_eq_true, beq_iff_eq] at h
          rw [h]
          exact .refl _
      | number u =>
          cases t' <;> simp only [beq, Bool.false_eq_true] at h
          rw [toGround, toGround, groundUnit_of_beq h]
          exact .refl _
      | ident name =>
          cases t' <;> simp only [beq, Bool.false_eq_true, beq_iff_eq] at h
          rw [h]
          exact .refl _
      | apply name args =>
          cases t' <;> simp only [beq, Bool.false_eq_true, Bool.and_eq_true, beq_iff_eq] at h
          obtain ⟨rfl, h⟩ := h
          refine SameResult.bind (toGroundArgs_related stepwise_sameResult ?_) fun values => groundTagged_part _ _ _ _
          refine (forall₂_and_mem (beqArgs_iff.1 h)).imp fun a b hab => ?_
          obtain ⟨ha, hab⟩ := hab
          cases hab with
          | unit huv => exact .unit (groundUnit_of_beq huv ▸ .refl _)
          | type ht => exact .type (ih _ (mem_children_apply.2 ha) ht)
      | record fields complete =>
          cases t' <;> simp only [beq, Bool.false_eq_true, Bool.and_eq_true, beq_iff_eq] at h
          obtain ⟨h, rfl⟩ := h
          cases complete with
          -- The errors differ, as each shows its own fields.
          | false => exact .of_errors
          | true =>
              refine SameResult.map (toGroundFields_related stepwise_sameResult (fun _ _ => .refl _) ?_) _
              refine (forall₂_and_mem (beqFields_iff.1 h)).imp fun f g hfg => ?_
              exact { hfg.2 with type := ih _ (List.mem_map_of_mem hfg.1) hfg.2.type }
      | array element =>
          cases t' <;> simp only [beq, Bool.false_eq_true] at h
          exact (ih element List.mem_cons_self h).map _
      | function params result =>
          cases t' <;> simp only [beq, Bool.false_eq_true, Bool.and_eq_true] at h
          have hparams := toGroundParams_related stepwise_sameResult
            ((forall₂_and_mem (beqParams_iff.1 h.1)).imp fun t t' ht => ih t (List.mem_append_left _ ht.1) ht.2)
          have hresult := ih result (List.mem_append_right _ List.mem_cons_self) h.2
          exact hparams.bind fun _ => hresult.bind fun _ => .refl _

end Scheme

end Equality

/-- Every unit in the product is declared. -/
def Measure.Declared (units : UnitCatalog) (u : Measure) : Prop :=
  ∀ f ∈ u.factors, (units.find? f.1).isSome = true

theorem Measure.Declared.printable {units : UnitCatalog} {u : Measure} (h : u.Declared units) :
    UnitScheme.Printable units u.lift := by
  rw [UnitScheme.Printable, Measure.factors_lift]
  exact List.forall_mem_map.2 h

namespace GroundType

/-- The fields of the type have names that can be written, and its units are declared. -/
inductive Writable (units : UnitCatalog) : GroundType → Prop where
  | primitive (p : Primitive) : Writable units (.primitive p)
  | number {u : Measure} (h : u.Declared units) : Writable units (.number u)
  | tagged {name : Name} {args : List (Arg Measure GroundType)}
      (hunits : ∀ u, .unit u ∈ args → Measure.Declared units u)
      (htypes : ∀ t, .type t ∈ args → Writable units t) : Writable units (.tagged name args)
  | record {fields : List (Name × GroundType)} (hnames : ∀ f ∈ fields, f.1.isValid = true)
      (htypes : ∀ f ∈ fields, Writable units f.2) : Writable units (.record fields)
  | array {element : GroundType} (h : Writable units element) : Writable units (.array element)
  | function {params : List GroundType} {result : GroundType} (hparams : ∀ t ∈ params, Writable units t)
      (hresult : Writable units result) : Writable units (.function params result)

section Lists

theorem toSchemeArgs_agree (args : List (Arg Measure GroundType)) :
    Forall₂ (Arg.Agree (fun m u => u = m.lift) fun d t => t = d.toScheme) args (toSchemeArgs args) := by
  induction args with
  | nil => exact .nil
  | cons a args ih =>
      cases a with
      | unit u => exact .cons (.unit rfl) ih
      | type t => exact .cons (.type rfl) ih

theorem toSchemeFields_eq_map (fields : List (Name × GroundType)) :
    toSchemeFields fields = fields.map fun f => ⟨f.1, f.2.toScheme, true⟩ := by
  induction fields with
  | nil => rfl
  | cons f fields ih => rw [toSchemeFields, ih, List.map_cons]

theorem toSchemeParams_eq_map (params : List GroundType) : toSchemeParams params = params.map toScheme := by
  induction params with
  | nil => rfl
  | cons t params ih => rw [toSchemeParams, ih, List.map_cons]

end Lists

variable {c : Catalog}

/-- Names of tagged types can be written because they are declared. -/
theorem Valid.printable (hc : c.Consistent) {d : GroundType} (hvalid : d.Valid c) (hwritable : d.Writable c.units) :
    d.toScheme.Printable c.units := by
  induction hvalid with
  | primitive p => exact .primitive p
  | number u =>
      cases hwritable with
      | number h => exact .number h.printable
  | @tagged name args definition hfind _ _ ih =>
      cases hwritable with
      | tagged hunits htypes =>
          obtain ⟨hmem, rfl⟩ := hc.find?_eq_some_iff.1 hfind
          have hname := (hc.declarable definition hmem).name
          have hargs := exists_of_forall₂ (toSchemeArgs_agree args)
          -- Without arguments the type is written as a plain name.
          rw [toScheme, Scheme.tagged]
          split
          · exact .ident hname
          · rename_i hne
            refine .apply hname (fun hnil => hne (List.isEmpty_iff.2 hnil)) (fun u hu => ?_) (fun t ht => ?_)
            · obtain ⟨_, ha, hau⟩ := hargs _ hu
              cases hau with
              | unit h => exact h ▸ (hunits _ ha).printable
            · obtain ⟨_, ha, hat⟩ := hargs _ ht
              cases hat with
              | type h => exact h ▸ ih _ ha (htypes _ ha)
  | record _ ih =>
      cases hwritable with
      | record hnames htypes =>
          rw [toScheme, toSchemeFields_eq_map]
          exact .record (List.forall_mem_map.2 hnames) (List.forall_mem_map.2 fun f hf => ih f hf (htypes f hf))
  | array _ ih =>
      cases hwritable with
      | array h => exact .array (ih h)
  | function _ _ ihparams ihresult =>
      cases hwritable with
      | function hparams hresult =>
          rw [toScheme, toSchemeParams_eq_map]
          exact .function (List.forall_mem_map.2 fun t ht => ihparams t ht (hparams t ht)) (ihresult hresult)

/-- The text of a valid type is read, and what is read stands for the type.  Records have their fields in order,
as in everything that a catalog gives. -/
theorem toGround_parse_text (hc : c.Built) {d : GroundType} (hvalid : d.Valid c) (hwritable : d.Writable c.units)
    (hordered : d.toScheme.Ordered) :
    ∃ t, Scheme.parse c.units d.text = .ok t ∧ t.toGround .empty c = .ok d := by
  have hprintable := hvalid.printable hc.consistent hwritable
  obtain ⟨t, ht, hwritten⟩ := Scheme.writtenAs hc.consistent.units.built hprintable hordered
  have hparse := Scheme.parse_eq_ok_iff.2 hwritten.exists_readAll
  exact ⟨t, hparse, (Scheme.toGround_of_beq ht).backward d hvalid.toGround_toScheme⟩

/-- A field and a unit are named like builtin types, a unit has the least power, a tagged type has no arguments and
another one has a unit and a type. -/
theorem toGround_parse_text_of_keyword_names :
    let ds : List Declaration :=
      [.type ⟨"Box", [⟨.unit, "u"⟩, ⟨.type, "a"⟩], []⟩, .type ⟨"Leaf", [], []⟩, .unit "Date" "day"]
    let c := Catalog.builtin.afterDeclarations ds
    let unit : Measure := ⟨[("Date", 1), ("m", ⟨-2147483648, by decide, by decide⟩)], by decide, by decide⟩
    let leaf : GroundType := .tagged "Leaf" []
    let box : GroundType := .tagged "Box" [.unit unit, .type leaf]
    let d : GroundType := .function [.record [("Number", box), ("m", .tagged "Optional" [.type box])]]
      (.array (.number unit))
    d.Valid c ∧ d.Writable c.units ∧
      ∃ t, Scheme.parse c.units d.text = .ok t ∧ t.toGround .empty c = .ok d := by
  intro ds c unit leaf box d
  have htypes : c.types = [Catalog.optional, ⟨"Box", [⟨.unit, "u"⟩, ⟨.type, "a"⟩], []⟩, ⟨"Leaf", [], []⟩] := by
    simp only [c, ds]
    rfl
  have hunits : c.units.units = UnitCatalog.builtinUnits ++ [⟨"Date", "day"⟩] := by
    simp only [c, ds]
    rfl
  have hunit : unit.Declared c.units := by
    simp only [Measure.Declared, UnitCatalog.find?_eq, hunits, unit, List.forall_mem_cons]
    exact ⟨rfl, rfl, by simp⟩
  have hleaf : leaf.Valid c := by
    refine .tagged (d := ⟨"Leaf", [], []⟩) ?_ rfl (by simp)
    rw [Catalog.find?_eq, htypes]
    rfl
  have hbox : box.Valid c := by
    refine .tagged (d := ⟨"Box", [⟨.unit, "u"⟩, ⟨.type, "a"⟩], []⟩) ?_ rfl (by simpa using hleaf)
    rw [Catalog.find?_eq, htypes]
    rfl
  have hoptional : (GroundType.tagged "Optional" [.type box]).Valid c := by
    refine .tagged (d := Catalog.optional) ?_ rfl (by simpa using hbox)
    rw [Catalog.find?_eq, htypes]
    rfl
  have hvalid : d.Valid c := by
    refine .function (List.forall_mem_singleton.2 (.record ?_)) (.array (.number unit))
    exact List.forall_mem_cons.2 ⟨hbox, List.forall_mem_singleton.2 hoptional⟩
  have hboxWritable : box.Writable c.units := by
    refine .tagged (by simpa using hunit) ?_
    simp only [List.mem_cons, Arg.type.injEq, reduceCtorEq, false_or, List.not_mem_nil, or_false, forall_eq]
    exact .tagged (by simp) (by simp)
  have hwritable : d.Writable c.units := by
    refine .function (List.forall_mem_singleton.2 (.record ?_ ?_)) (.array (.number hunit))
    · simp only [List.forall_mem_cons]
      exact ⟨rfl, rfl, by simp⟩
    · refine List.forall_mem_cons.2 ⟨hboxWritable, List.forall_mem_singleton.2 (.tagged (by simp) ?_)⟩
      simpa using hboxWritable
  have hleafOrdered : leaf.toScheme.Ordered := .ident "Leaf"
  have hboxOrdered : box.toScheme.Ordered := by
    show Scheme.Ordered (.apply "Box" [.unit unit.lift, .type leaf.toScheme])
    exact .apply (by simpa using hleafOrdered)
  have hordered : d.toScheme.Ordered := by
    refine .function (List.forall_mem_singleton.2 (.record ?_ ?_)) (.array (.number _))
    · exact List.pairwise_pair.2 (by decide)
    · refine List.forall_mem_cons.2 ⟨hboxOrdered, List.forall_mem_singleton.2 ?_⟩
      show Scheme.Ordered (.apply "Optional" [.type box.toScheme])
      exact .apply (by simpa using hboxOrdered)
  exact ⟨hvalid, hwritable, toGround_parse_text (Catalog.built_builtin.afterDeclarations ds) hvalid hwritable hordered⟩

end GroundType

end Tabula
