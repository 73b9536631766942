import Tabula.Proofs.GroundReading
import Tabula.Proofs.ValidTypes

/-!
# What the ground type of a term consists of

If a term has a ground type, so have its parts, and the ground type is put together from theirs.  A tagged type
stands for itself with ground arguments, provided that the catalog declares it and its parameters match.
-/

namespace Tabula

open List (Forall₂)

section Tagged

variable {c : Catalog} {name : Name} {args : List (Arg Measure GroundType)} {d : GroundType}

/-- A tagged type is instantiated with arguments that it accepts, and keeps its name. -/
theorem TaggedType.instantiate_eq_ok_iff {definition : TaggedType} :
    definition.instantiate args = .ok d ↔ d = .tagged definition.name args ∧ definition.Accepts args := by
  rw [← TaggedType.mismatch?_eq_none_iff]
  unfold instantiate
  split
  · rename_i hmatch
    rw [Except.ok.injEq, eq_comm, and_iff_left hmatch]
  · rename_i hmismatch
    refine iff_of_false nofun fun h => ?_
    cases hmismatch.symm.trans h.2

/-- A field that may be missing has the wrapper with one argument as its type. -/
theorem Catalog.wrap_eq_ok_iff {t : GroundType} :
    c.wrap t = .ok d ↔ d = .tagged c.wrapper.name [.type t] ∧ c.wrapper.Accepts [Arg.type (υ := Measure) t] :=
  TaggedType.instantiate_eq_ok_iff

/-- A name that is declared stands for itself with arguments that are accepted. -/
theorem Catalog.lookup_eq_ok_some_iff :
    c.lookup name args = .ok (some d) ↔
      d = .tagged name args ∧ ∃ definition, c.find? name = some definition ∧ definition.Accepts args := by
  constructor
  · intro h
    unfold lookup at h
    split at h
    · rename_i definition hfind
      have hname : definition.name = name := Entry.name_of_find? hfind
      obtain ⟨t, ht, heq⟩ := map_eq_ok_iff.1 h
      cases heq
      obtain ⟨heq, hargs⟩ := TaggedType.instantiate_eq_ok_iff.1 ht
      exact ⟨hname ▸ heq, definition, hfind, hargs⟩
    · cases h
  · rintro ⟨rfl, definition, hfind, hargs⟩
    exact lookup_eq_self hfind hargs

theorem Term.groundTagged_eq_ok_iff :
    groundTagged c name args = .ok d ↔
      d = .tagged name args ∧ ∃ definition, c.find? name = some definition ∧ definition.Accepts args := by
  rw [← Catalog.lookup_eq_ok_some_iff]
  unfold groundTagged
  split <;> simp [*]

theorem Scheme.groundTagged_eq_ok_iff {part : Unresolved} :
    groundTagged c name args part = .ok d ↔
      d = .tagged name args ∧ ∃ definition, c.find? name = some definition ∧ definition.Accepts args := by
  rw [← Catalog.lookup_eq_ok_some_iff]
  unfold groundTagged
  split <;> simp [*]

end Tagged

namespace Term

variable {c : Catalog} {type : VarId → Except ReadError GroundType} {unit : UnitTerm → Except ReadError Measure}

/-- The field of the ground type is made from the field of the term. -/
structure GroundsField (c : Catalog) (type : VarId → Except ReadError GroundType)
    (unit : UnitTerm → Except ReadError Measure) (f : Field Term) (value : Name × GroundType) : Prop where
  name : f.name = value.1
  type : ∃ d, f.type.toGround c type unit = .ok d ∧ groundFieldType c f.required d = .ok value.2

/-- Arguments are made ground one by one. -/
theorem toGroundArgs_eq_ok {args : List (Arg UnitTerm Term)} {values : List (Arg Measure GroundType)}
    (h : toGroundArgs c type unit args = .ok values) :
    Forall₂ (Arg.Agree (fun u m => unit u = .ok m) fun t d => t.toGround c type unit = .ok d) args values := by
  induction args generalizing values with
  | nil =>
      cases h
      exact .nil
  | cons a args ih =>
      cases a with
      | unit u =>
          obtain ⟨m, hm, h⟩ := bind_eq_ok_iff.1 h
          obtain ⟨rest, hrest, h⟩ := bind_eq_ok_iff.1 h
          cases h
          exact .cons (.unit hm) (ih hrest)
      | type t =>
          obtain ⟨d, hd, h⟩ := bind_eq_ok_iff.1 h
          obtain ⟨rest, hrest, h⟩ := bind_eq_ok_iff.1 h
          cases h
          exact .cons (.type hd) (ih hrest)

theorem toGroundFields_eq_ok {fields : List (Field Term)} {values : List (Name × GroundType)}
    (h : toGroundFields c type unit fields = .ok values) :
    Forall₂ (GroundsField c type unit) fields values := by
  induction fields generalizing values with
  | nil =>
      cases h
      exact .nil
  | cons f fields ih =>
      obtain ⟨d, hd, h⟩ := bind_eq_ok_iff.1 h
      obtain ⟨fieldType, hfieldType, h⟩ := bind_eq_ok_iff.1 h
      obtain ⟨rest, hrest, h⟩ := bind_eq_ok_iff.1 h
      cases h
      exact .cons ⟨rfl, d, hd, hfieldType⟩ (ih hrest)

theorem toGroundParams_eq_ok {params : List Term} {values : List GroundType}
    (h : toGroundParams c type unit params = .ok values) :
    Forall₂ (fun t d => t.toGround c type unit = .ok d) params values := by
  induction params generalizing values with
  | nil =>
      cases h
      exact .nil
  | cons t params ih =>
      obtain ⟨d, hd, h⟩ := bind_eq_ok_iff.1 h
      obtain ⟨rest, hrest, h⟩ := bind_eq_ok_iff.1 h
      cases h
      exact .cons hd (ih hrest)

end Term

end Tabula
