import Tabula.Proofs.Lowering
import Tabula.Proofs.ProductRelations

/-!
# Ground types that a catalog knows

A ground type is valid in a catalog if each of its tagged types is declared there, with parameters that match the
arguments in number and in kind.  A valid type is the ground type of its own written form, if its plain names have no
value: a tagged type without arguments is written as a plain name, which a variable of that name would take.
-/

namespace Tabula

open List (Forall₂)

namespace TaggedType

variable {υ τ : Type} {d : TaggedType} {args : List (Arg υ τ)}

/-- The parameters match the arguments, in number and in kind. -/
def Accepts (d : TaggedType) (args : List (Arg υ τ)) : Prop :=
  d.params.map Param.kind = args.map Arg.kind

instance (d : TaggedType) (args : List (Arg υ τ)) : Decidable (d.Accepts args) :=
  inferInstanceAs (Decidable (_ = _))

theorem kindMismatch?_eq_none_iff {params : List Param} {position : Nat} (h : params.length = args.length) :
    kindMismatch? position params args = none ↔ params.map Param.kind = args.map Arg.kind := by
  induction params generalizing args position with
  | nil =>
      cases args with
      | nil => exact iff_of_true rfl rfl
      | cons a args => cases h
  | cons p params ih =>
      cases args with
      | nil => cases h
      | cons a args =>
          rw [kindMismatch?, List.map_cons, List.map_cons, List.cons.injEq]
          split
          · rename_i hkind
            rw [ih (Nat.succ.inj h), and_iff_right hkind]
          · rename_i hkind
            exact iff_of_false nofun fun heq => hkind heq.1

theorem mismatch?_eq_none_iff : d.mismatch? args = none ↔ d.Accepts args := by
  unfold mismatch?
  split
  · rename_i hlength
    exact kindMismatch?_eq_none_iff hlength
  · rename_i hlength
    refine iff_of_false nofun fun h => hlength ?_
    simpa using congrArg List.length h

end TaggedType

theorem Catalog.lookup_eq_self {c : Catalog} {name : Name} {args : List (Arg Measure GroundType)}
    {d : TaggedType} (hfind : c.find? name = some d) (hargs : d.Accepts args) :
    c.lookup name args = .ok (some (.tagged name args)) := by
  have hname : d.name = name := Entry.name_of_find? hfind
  rw [lookup, hfind]
  simp only [TaggedType.instantiate, TaggedType.mismatch?_eq_none_iff.2 hargs, hname]
  rfl

namespace GroundType

variable {c : Catalog}

/-- Every tagged type in the type is declared, with parameters that match the arguments. -/
inductive Valid (c : Catalog) : GroundType → Prop where
  | primitive (p : Primitive) : Valid c (.primitive p)
  | number (u : Measure) : Valid c (.number u)
  | tagged {name args d} (hfind : c.find? name = some d) (hargs : d.Accepts args)
      (htypes : ∀ t, .type t ∈ args → Valid c t) : Valid c (.tagged name args)
  | record {fields} (htypes : ∀ f ∈ fields, Valid c f.2) : Valid c (.record fields)
  | array {element} (h : Valid c element) : Valid c (.array element)
  | function {params result} (hparams : ∀ t ∈ params, Valid c t) (hresult : Valid c result) :
      Valid c (.function params result)

/-- A unit without variables is the value of its own written form. -/
theorem groundUnit_lift (s : Substitution) (m : Measure) : Scheme.groundUnit s m.lift = .ok m := by
  have hvalues : Forall₂ (fun g x => s.atom g.1 = .ok x.1 ∧ g.2 = x.2) (m.lift : UnitScheme).factors
      (m.factors.map fun f => (Product.single f.1, f.2)) := by
    rw [Measure.factors_lift, List.forall₂_map_left_iff, List.forall₂_map_right_iff]
    exact List.forall₂_same.2 fun f _ => ⟨rfl, rfl⟩
  exact mapError_eq_ok_iff.2 (Product.bindM_eq_ok_iff.2 ⟨_, hvalues, m.bind_single⟩)

section Lists

variable {args : List (Arg Measure GroundType)} {fields : List (Name × GroundType)} {params : List GroundType}

theorem toGroundArgs_toSchemeArgs {s : Substitution}
    (h : ∀ t, .type t ∈ args → t.toScheme.toGround s c = .ok t) :
    Scheme.toGroundArgs s c (toSchemeArgs args) = .ok args := by
  induction args with
  | nil => rfl
  | cons a args ih =>
      have hrest := ih fun t ht => h t (List.mem_cons_of_mem _ ht)
      cases a with
      | unit u => simp only [toSchemeArgs, Scheme.toGroundArgs, groundUnit_lift, hrest]; rfl
      | type t => simp only [toSchemeArgs, Scheme.toGroundArgs, h t List.mem_cons_self, hrest]; rfl

theorem toGroundFields_toSchemeFields {s : Substitution}
    (h : ∀ f ∈ fields, f.2.toScheme.toGround s c = .ok f.2) :
    Scheme.toGroundFields s c (toSchemeFields fields) = .ok fields := by
  induction fields with
  | nil => rfl
  | cons f fields ih =>
      obtain ⟨hf, hfields⟩ := List.forall_mem_cons.1 h
      simp only [toSchemeFields, Scheme.toGroundFields, hf, ih hfields]
      rfl

theorem toGroundParams_toSchemeParams {s : Substitution}
    (h : ∀ t ∈ params, t.toScheme.toGround s c = .ok t) :
    Scheme.toGroundParams s c (toSchemeParams params) = .ok params := by
  induction params with
  | nil => rfl
  | cons t params ih =>
      obtain ⟨ht, hparams⟩ := List.forall_mem_cons.1 h
      simp only [toSchemeParams, Scheme.toGroundParams, ht, ih hparams]
      rfl

end Lists

/-- A tagged type of this name occurs without arguments in the type, so that the name stands by itself in the written
form. -/
inductive HasPlainName (name : Name) : GroundType → Prop where
  | here : HasPlainName name (.tagged name [])
  | arg {other args t} (ht : .type t ∈ args) (h : HasPlainName name t) : HasPlainName name (.tagged other args)
  | field {fields f} (hf : f ∈ fields) (h : HasPlainName name f.2) : HasPlainName name (.record fields)
  | element {element} (h : HasPlainName name element) : HasPlainName name (.array element)
  | param {params result t} (ht : t ∈ params) (h : HasPlainName name t) : HasPlainName name (.function params result)
  | result {params result} (h : HasPlainName name result) : HasPlainName name (.function params result)

/-- A declared tagged type is what it is written as, be it as a plain name or with arguments. -/
theorem toGround_tagged {s : Substitution} {name : Name} {args : List (Arg UnitScheme Scheme)}
    {values : List (Arg Measure GroundType)} (hargs : Scheme.toGroundArgs s c args = .ok values)
    (hplain : values = [] → s.get? name = none) (hlookup : c.lookup name values = .ok (some (.tagged name values))) :
    (Scheme.tagged name args).toGround s c = .ok (.tagged name values) := by
  have hground : ∀ part, Scheme.groundTagged c name values part = .ok (.tagged name values) := fun part => by
    simp only [Scheme.groundTagged, hlookup]
  cases args with
  | nil =>
      -- The type is written as a plain name, and no variable has that name.
      cases hargs
      show Scheme.toGround s c (.ident name) = _
      rw [Scheme.toGround, Bindings.typeVar_eq_ok_none_iff.2 (hplain rfl)]
      exact hground (.name name)
  | cons a args => exact bind_eq_ok_iff.2 ⟨values, hargs, hground _⟩

/-- A valid type is the ground type of its written form, if its plain names are no variables. -/
theorem Valid.toGround_toScheme_of_unbound {s : Substitution} {d : GroundType} (h : d.Valid c)
    (hs : ∀ name, d.HasPlainName name → s.get? name = none) : d.toScheme.toGround s c = .ok d := by
  induction h with
  | primitive p => rfl
  | number u => exact map_eq_ok_iff.2 ⟨u, groundUnit_lift _ u, rfl⟩
  | @tagged name args _ hfind hargs _ ih =>
      have hvalues := toGroundArgs_toSchemeArgs fun t ht => ih t ht fun n hn => hs n (.arg ht hn)
      refine toGround_tagged hvalues (fun hnil => hs name ?_) (Catalog.lookup_eq_self hfind hargs)
      exact hnil ▸ .here
  | record _ ih =>
      have hfields := toGroundFields_toSchemeFields fun f hf => ih f hf fun n hn => hs n (.field hf hn)
      exact map_eq_ok_iff.2 ⟨_, hfields, rfl⟩
  | array _ ih => exact map_eq_ok_iff.2 ⟨_, ih fun n hn => hs n (.element hn), rfl⟩
  | function _ _ ihparams ihresult =>
      have hparams := toGroundParams_toSchemeParams fun t ht => ihparams t ht fun n hn => hs n (.param ht hn)
      have hresult := ihresult fun n hn => hs n (.result hn)
      exact bind_eq_ok_iff.2 ⟨_, hparams, bind_eq_ok_iff.2 ⟨_, hresult, rfl⟩⟩

/-- A valid type is the ground type of its written form. -/
theorem Valid.toGround_toScheme {d : GroundType} (h : d.Valid c) : d.toScheme.toGround .empty c = .ok d :=
  h.toGround_toScheme_of_unbound fun _ _ => rfl

end GroundType

end Tabula
