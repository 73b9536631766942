import Tabula.Proofs.GroundReading
import Tabula.Proofs.Printable
import Tabula.Proofs.SchemeParts

/-!
# Two ways from a written type to a ground type

`Scheme.toGround` puts ground values in the place of the variables of a written type.  `Scheme.toTerm` puts
terms in their place, and the term that results can be read as a ground type.  If the values of the variables
are what their terms are read as, both ways lead to the same ground type.

Units are compared through their powers, so what is said about a unit is said where no power is clamped when
its variables are replaced.  Apart from that, nothing is assumed about the values of the variables.
-/

namespace Tabula

open List (Forall₂)

namespace Product

variable {ε α β : Type} [Ord α] [Ord β] [Std.TransOrd β] {u : Product α} {w : Product β}
  {f : α → Except ε (Product β)}

theorem bindM_eq_ok_iff :
    u.bindM f = .ok w ↔ ∃ values, Forall₂ (fun g x => f g.1 = .ok x.1 ∧ g.2 = x.2) u.factors values ∧
      ofPowers values = w := by
  have hmember : ∀ (g : α × Exponent) (x : Product β × Exponent),
      (do let v ← f g.1; return (v, g.2)) = Except.ok x ↔ f g.1 = .ok x.1 ∧ g.2 = x.2 := by
    intro g x
    rw [bind_eq_ok_iff]
    constructor
    · rintro ⟨v, hv, heq⟩
      cases heq
      exact ⟨hv, rfl⟩
    · rintro ⟨hv, hp⟩
      exact ⟨x.1, hv, by rw [hp]; rfl⟩
  have hvalues : ∀ values, (u.factors.mapM fun g => do let v ← f g.1; return (v, g.2)) = Except.ok values ↔
      Forall₂ (fun g x => f g.1 = .ok x.1 ∧ g.2 = x.2) u.factors values := fun values => by
    simp only [mapM_eq_ok_iff, hmember]
  refine bind_eq_ok_iff.trans ?_
  exact exists_congr fun values => and_congr (hvalues values) ⟨Except.ok.inj, congrArg Except.ok⟩

omit [Std.TransOrd β] in
/-- The values of the atoms are the same whether their absence is an error or not. -/
theorem values_eq_of_toOption {values values' : List (Product β × Exponent)}
    (h : Forall₂ (fun g x => f g.1 = .ok x.1 ∧ g.2 = x.2) u.factors values)
    (h' : Forall₂ (fun g x => (f g.1).toOption = some x.1 ∧ g.2 = x.2) u.factors values') : values = values' := by
  have hunique : Relator.RightUnique fun (g : α × Exponent) (x : Product β × Exponent) =>
      f g.1 = .ok x.1 ∧ g.2 = x.2 := by
    rintro g x y ⟨hx, hp⟩ ⟨hy, hq⟩
    exact Prod.ext (Except.ok.inj (hx.symm.trans hy)) (hp.symm.trans hq)
  exact List.right_unique_forall₂' hunique h
    (h'.imp fun g x hgx => ⟨toOption_eq_some_iff.1 hgx.1, hgx.2⟩)

/-- All powers fit when the atoms are replaced. -/
def BindsExactly (u : Product α) (f : α → Except ε (Product β)) : Prop :=
  ∀ w, u.bindM f = .ok w → (u.bind? fun a => (f a).toOption).isSome

theorem BindsExactly.bind?_eq (h : u.BindsExactly f) (hw : u.bindM f = .ok w) :
    u.bind? (fun a => (f a).toOption) = some w := by
  obtain ⟨w', hw'⟩ := Option.isSome_iff_exists.1 (h w hw)
  obtain ⟨values, hvalues, rfl⟩ := bindM_eq_ok_iff.1 hw
  obtain ⟨values', hvalues', hpowers⟩ := bind?_eq_some_iff.1 hw'
  rw [hw', values_eq_of_toOption hvalues hvalues', ofPowers_of_ofPowers? hpowers]

theorem exists_bindM_eq_ok_iff : (∃ w, u.bindM f = .ok w) ↔ ∀ a ∈ u.atoms, ∃ x, f a = .ok x := by
  simp only [bindM_eq_ok_iff, Product.atoms, List.mem_map]
  constructor
  · rintro ⟨w, values, hvalues, -⟩ _ ⟨g, hg, rfl⟩
    obtain ⟨x, -, hx, -⟩ := exists_of_forall₂ hvalues.flip g hg
    exact ⟨x.1, hx⟩
  · intro h
    have hvalue : ∀ g ∈ u.factors, ∃ x : Product β × Exponent, f g.1 = .ok x.1 ∧ g.2 = x.2 := by
      intro g hg
      obtain ⟨x, hx⟩ := h g.1 ⟨g, hg, rfl⟩
      exact ⟨(x, g.2), hx, rfl⟩
    obtain ⟨values, hvalues⟩ := exists_forall₂ hvalue
    exact ⟨_, values, hvalues, rfl⟩

/-- An atom of the result is one of what an atom was replaced by. -/
theorem mem_atoms_of_bindM (h : u.bindM f = .ok w) {b : β} (hb : b ∈ w.atoms) :
    ∃ a ∈ u.atoms, ∃ x, f a = .ok x ∧ b ∈ x.atoms := by
  obtain ⟨values, hvalues, rfl⟩ := bindM_eq_ok_iff.1 h
  obtain ⟨x, hx, hb⟩ := mem_atoms_ofPowers hb
  obtain ⟨g, hg, hgx, -⟩ := exists_of_forall₂ hvalues x hx
  exact ⟨g.1, mem_atoms_of_mem hg, x.1, hgx, hb⟩

end Product

namespace Scheme

section Lowered

variable {b : TermBindings}

/-- Replace the variables of one argument. -/
def toTermArg (b : TermBindings) : Arg UnitScheme Scheme → Except BindingError (Arg UnitTerm Term)
  | .unit u => (UnitScheme.toTerm b u).map .unit
  | .type t => (t.toTerm b).map .type

/-- Replace the variables of one field. -/
def toTermField (b : TermBindings) (f : Field Scheme) : Except BindingError (Field Term) :=
  (f.type.toTerm b).map fun t => ⟨f.name, t, f.required⟩

theorem toTermArgs_eq_mapM (args : List (Arg UnitScheme Scheme)) : toTermArgs b args = args.mapM (toTermArg b) := by
  induction args with
  | nil => rfl
  | cons a args ih =>
      rw [List.mapM_cons, ← ih]
      cases a with
      | unit u =>
          rw [toTermArgs, toTermArg]
          cases UnitScheme.toTerm b u <;> rfl
      | type t =>
          rw [toTermArgs, toTermArg]
          cases t.toTerm b <;> rfl

theorem toTermFields_eq_mapM (fields : List (Field Scheme)) :
    toTermFields b fields = fields.mapM (toTermField b) := by
  induction fields with
  | nil => rfl
  | cons f fields ih =>
      rw [List.mapM_cons, ← ih, toTermFields, toTermField]
      cases f.type.toTerm b <;> rfl

theorem toTermParams_eq_mapM (params : List Scheme) : toTermParams b params = params.mapM (toTerm b) := by
  induction params with
  | nil => rfl
  | cons t params ih => rw [List.mapM_cons, ← ih, toTermParams]

theorem toTermArg_eq_ok_iff {a : Arg UnitScheme Scheme} {a' : Arg UnitTerm Term} :
    toTermArg b a = .ok a' ↔
      Arg.Agree (fun u v => UnitScheme.toTerm b u = .ok v) (fun s t => s.toTerm b = .ok t) a a' := by
  cases a with
  | unit u =>
      rw [toTermArg, map_eq_ok_iff]
      constructor
      · rintro ⟨v, hv, rfl⟩
        exact .unit hv
      · intro h
        cases h with
        | unit hv => exact ⟨_, hv, rfl⟩
  | type t =>
      rw [toTermArg, map_eq_ok_iff]
      constructor
      · rintro ⟨e, he, rfl⟩
        exact .type he
      · intro h
        cases h with
        | type he => exact ⟨_, he, rfl⟩

theorem toTermField_eq_ok_iff {f : Field Scheme} {g : Field Term} :
    toTermField b f = .ok g ↔ Field.Agree (fun s t => s.toTerm b = .ok t) f g := by
  rw [toTermField, map_eq_ok_iff]
  constructor
  · rintro ⟨t, ht, rfl⟩
    exact ⟨rfl, ht, rfl⟩
  · rintro ⟨hname, htype, hrequired⟩
    exact ⟨g.type, htype, by rw [hname, hrequired]⟩

theorem toTermArgs_eq_ok_iff {as : List (Arg UnitScheme Scheme)} {bs : List (Arg UnitTerm Term)} :
    toTermArgs b as = .ok bs ↔
      Forall₂ (Arg.Agree (fun u v => UnitScheme.toTerm b u = .ok v) fun s t => s.toTerm b = .ok t) as bs := by
  simp only [toTermArgs_eq_mapM, mapM_eq_ok_iff, toTermArg_eq_ok_iff]

theorem toTermFields_eq_ok_iff {fs : List (Field Scheme)} {gs : List (Field Term)} :
    toTermFields b fs = .ok gs ↔ Forall₂ (Field.Agree fun s t => s.toTerm b = .ok t) fs gs := by
  simp only [toTermFields_eq_mapM, mapM_eq_ok_iff, toTermField_eq_ok_iff]

theorem toTermParams_eq_ok_iff {ss : List Scheme} {ts : List Term} :
    toTermParams b ss = .ok ts ↔ Forall₂ (fun s t => s.toTerm b = .ok t) ss ts := by
  rw [toTermParams_eq_mapM, mapM_eq_ok_iff]

/-- What holds of the values of the variables holds of the term, if its other parts have it as well. -/
theorem everywhere_of_toTerm {P : Term → Prop} {Q : UnitTerm → Prop} {g : Scheme} {e : Term}
    (hnode : ∀ t : Term, (∀ id, t ≠ .var id) → t.Regular → P t)
    (hvars : ∀ name t, b.typeVar name = .ok (some t) → t.Everywhere P Q)
    (hunits : ∀ u v, UnitScheme.toTerm b u = .ok v → Q v) (hordered : g.Ordered) (hcomplete : g.Complete)
    (h : g.toTerm b = .ok e) : e.Everywhere P Q := by
  induction hordered generalizing e with
  | primitive p =>
      cases h
      exact Term.everywhere_primitive.2 (hnode _ nofun nofun)
  | number u =>
      obtain ⟨v, hv, rfl⟩ := map_eq_ok_iff.1 h
      exact Term.everywhere_number.2 ⟨hnode _ nofun nofun, hunits u v hv⟩
  | ident name =>
      obtain ⟨value, hvalue, rfl⟩ := map_eq_ok_iff.1 h
      cases value with
      | some t => exact hvars name t hvalue
      | none => exact Term.everywhere_tagged.2 ⟨hnode _ nofun nofun, nofun, nofun⟩
  | apply htypes ih =>
      obtain ⟨args', hargs, rfl⟩ := map_eq_ok_iff.1 h
      have hagree := toTermArgs_eq_ok_iff.1 hargs
      refine Term.everywhere_tagged.2 ⟨hnode _ nofun nofun, fun v hv => ?_, fun t ht => ?_⟩
      · obtain ⟨_, -, hu⟩ := exists_of_forall₂ hagree _ hv
        cases hu with
        | unit hu => exact hunits _ _ hu
      · obtain ⟨_, hs, hst⟩ := exists_of_forall₂ hagree _ ht
        cases hst with
        | type hst => exact ih _ hs (fun fields hpart => hcomplete fields (.arg hs hpart)) hst
  | @record fields complete hfields htypes ih =>
      obtain ⟨fields', hfields', rfl⟩ := map_eq_ok_iff.1 h
      have hagree := toTermFields_eq_ok_iff.1 hfields'
      have hregular : (Term.record fields' complete).Regular := by
        rintro _ _ ⟨⟩
        refine ⟨Bool.eq_true_of_not_eq_false fun hopen => ?_, .of_forall₂ hagree hfields ?_⟩
        · subst hopen
          exact hcomplete fields .self
        · intro f f' g g' hfg hfg' hlt
          rwa [← hfg.name, ← hfg'.name]
      refine Term.everywhere_record.2 ⟨hnode _ nofun hregular, fun f' hf' => ?_⟩
      obtain ⟨f, hf, hagree⟩ := exists_of_forall₂ hagree f' hf'
      exact ih f hf (fun fields hpart => hcomplete fields (.field hf hpart)) hagree.type
  | @array element helement ih =>
      obtain ⟨t, ht, rfl⟩ := map_eq_ok_iff.1 h
      have hpart : element.Complete := fun fields hpart => hcomplete fields (.element hpart)
      exact Term.everywhere_array.2 ⟨hnode _ nofun nofun, ih hpart ht⟩
  | function hparams hresult ihparams ihresult =>
      obtain ⟨params', hparams', h⟩ := bind_eq_ok_iff.1 h
      obtain ⟨result', hresult', h⟩ := bind_eq_ok_iff.1 h
      cases h
      refine Term.everywhere_function.2 ⟨hnode _ nofun nofun, fun t ht => ?_, ?_⟩
      · obtain ⟨s, hs, hst⟩ := exists_of_forall₂ (toTermParams_eq_ok_iff.1 hparams') t ht
        exact ihparams s hs (fun fields hpart => hcomplete fields (.param hs hpart)) hst
      · exact ihresult (fun fields hpart => hcomplete fields (.result hpart)) hresult'

end Lowered

section Grounded

variable {s : Substitution} {c : Catalog}

theorem exists_toGround_of_args {args : List (Arg UnitScheme Scheme)} {values : List (Arg Measure GroundType)}
    (h : toGroundArgs s c args = .ok values) {t : Scheme} (ht : .type t ∈ args) :
    ∃ d, t.toGround s c = .ok d := by
  induction args generalizing values with
  | nil => cases ht
  | cons a args ih =>
      cases a with
      | unit u =>
          obtain ⟨_, -, h⟩ := bind_eq_ok_iff.1 h
          obtain ⟨vs, hvs, -⟩ := bind_eq_ok_iff.1 h
          rcases List.mem_cons.1 ht with heq | ht
          · cases heq
          · exact ih hvs ht
      | type t' =>
          obtain ⟨v, hv, h⟩ := bind_eq_ok_iff.1 h
          obtain ⟨vs, hvs, -⟩ := bind_eq_ok_iff.1 h
          rcases List.mem_cons.1 ht with heq | ht
          · cases heq
            exact ⟨v, hv⟩
          · exact ih hvs ht

theorem exists_toGround_of_fields {fields : List (Field Scheme)} {values : List (Name × GroundType)}
    (h : toGroundFields s c fields = .ok values) {f : Field Scheme} (hf : f ∈ fields) :
    ∃ d, f.type.toGround s c = .ok d := by
  induction fields generalizing values with
  | nil => cases hf
  | cons f' fields ih =>
      obtain ⟨v, hv, h⟩ := bind_eq_ok_iff.1 h
      obtain ⟨_, -, h⟩ := bind_eq_ok_iff.1 h
      obtain ⟨vs, hvs, -⟩ := bind_eq_ok_iff.1 h
      rcases List.mem_cons.1 hf with rfl | hf
      · exact ⟨v, hv⟩
      · exact ih hvs hf

theorem exists_toGround_of_params {params : List Scheme} {values : List GroundType}
    (h : toGroundParams s c params = .ok values) {t : Scheme} (ht : t ∈ params) :
    ∃ d, t.toGround s c = .ok d := by
  induction params generalizing values with
  | nil => cases ht
  | cons t' params ih =>
      obtain ⟨v, hv, h⟩ := bind_eq_ok_iff.1 h
      obtain ⟨vs, hvs, -⟩ := bind_eq_ok_iff.1 h
      rcases List.mem_cons.1 ht with rfl | ht
      · exact ⟨v, hv⟩
      · exact ih hvs ht

/-- Every part of a type that has a ground type has one. -/
theorem exists_toGround_of_part {p t : Scheme} {d : GroundType} (hpart : Part p t)
    (h : t.toGround s c = .ok d) : ∃ d, p.toGround s c = .ok d := by
  induction hpart generalizing d with
  | self => exact ⟨d, h⟩
  | arg ht _ ih =>
      obtain ⟨values, hvalues, -⟩ := bind_eq_ok_iff.1 h
      obtain ⟨_, hd⟩ := exists_toGround_of_args hvalues ht
      exact ih hd
  | @field _ complete _ hf _ ih =>
      cases complete with
      | false => cases h
      | true =>
          obtain ⟨values, hvalues, -⟩ := map_eq_ok_iff.1 h
          obtain ⟨_, hd⟩ := exists_toGround_of_fields hvalues hf
          exact ih hd
  | element _ ih =>
      obtain ⟨_, hd, -⟩ := map_eq_ok_iff.1 h
      exact ih hd
  | param ht _ ih =>
      obtain ⟨values, hvalues, -⟩ := bind_eq_ok_iff.1 h
      obtain ⟨_, hd⟩ := exists_toGround_of_params hvalues ht
      exact ih hd
  | result _ ih =>
      obtain ⟨_, -, h⟩ := bind_eq_ok_iff.1 h
      obtain ⟨_, hd, -⟩ := bind_eq_ok_iff.1 h
      exact ih hd

theorem complete_of_toGround {t : Scheme} {d : GroundType} (h : t.toGround s c = .ok d) : t.Complete := by
  intro fields hpart
  obtain ⟨_, hd⟩ := exists_toGround_of_part hpart h
  cases hd

end Grounded

end Scheme

namespace Bindings

variable {υ τ : Type} {b : Bindings υ τ} {name : Name}

theorem get?_eq_some {a : Arg υ τ} (h : b.get? name = some a) : (name, a) ∈ b.entries := by
  obtain ⟨entry, hfind, rfl⟩ := Option.map_eq_some_iff.1 h
  obtain ⟨hmem, rfl⟩ := Ascending.of_find?_eq_some hfind
  exact hmem

theorem get?_of_mem {entry : Name × Arg υ τ} (h : entry ∈ b.entries) : b.get? entry.1 = some entry.2 := by
  rw [get?, Ascending.find?_of_mem b.ordered h]
  rfl

section Correspondence

variable {υ' τ' : Type} {R : Arg υ τ → Arg υ' τ' → Prop}

/-- Bindings whose entries correspond one by one give every name values that correspond. -/
theorem rel_get?_of_entries {b' : Bindings υ' τ'}
    (h : Forall₂ (fun x y => x.1 = y.1 ∧ R x.2 y.2) b.entries b'.entries) (name : Name) :
    Option.Rel R (b.get? name) (b'.get? name) := by
  have hrel := Ascending.find?_of_forall₂ (k := name) h fun _ _ hxy => hxy.1
  unfold get?
  generalize Ascending.find? Prod.fst name b.entries = x, Ascending.find? Prod.fst name b'.entries = y at hrel ⊢
  cases hrel with
  | none => exact .none
  | some hxy => exact .some hxy.2

/-- Values that correspond to the bound ones can be bound to the same names. -/
theorem exists_rel_get? (h : ∀ entry ∈ b.entries, ∃ a, R entry.2 a) :
    ∃ b' : Bindings υ' τ', ∀ name, Option.Rel R (b.get? name) (b'.get? name) := by
  have hentry : ∀ x ∈ b.entries, ∃ y : Name × Arg υ' τ', x.1 = y.1 ∧ R x.2 y.2 := by
    intro x hx
    obtain ⟨a, ha⟩ := h x hx
    exact ⟨(x.1, a), rfl, ha⟩
  obtain ⟨entries, hentries⟩ := exists_forall₂ hentry
  have hascending : Ascending Prod.fst entries := by
    refine .of_forall₂ hentries b.ordered fun x x' y y' hxy hxy' hlt => ?_
    rwa [← hxy.1, ← hxy'.1]
  exact ⟨⟨entries, hascending⟩, rel_get?_of_entries hentries⟩

end Correspondence

theorem unit_eq_ok_iff {u : υ} : b.unit name = .ok u ↔ b.get? name = some (.unit u) := by
  unfold unit
  split <;> simp [*]

theorem typeVar_eq_ok_some_iff {t : τ} : b.typeVar name = .ok (some t) ↔ b.get? name = some (.type t) := by
  unfold typeVar
  split <;> simp [*]

theorem typeVar_eq_ok_none_iff : b.typeVar name = .ok none ↔ b.get? name = none := by
  unfold typeVar
  split <;> simp [*]

end Bindings

namespace Reading

variable {c : Catalog} {r : Reading} {b : TermBindings} {s : Substitution}

/-- The same names have values, and the values of the substitution are what the terms are read as. -/
def Matches (r : Reading) (c : Catalog) (b : TermBindings) (s : Substitution) : Prop :=
  ∀ name, Option.Rel
    (Arg.Agree (fun u m => m.powers = UnitTerm.powers r.units u) fun t d => r.ground c t = .ok d)
    (b.get? name) (s.get? name)

theorem Matches.exists_atom (h : r.Matches c b s) {a : Atom Name} {u : UnitTerm} (hu : b.atom a = .ok u) :
    ∃ m, s.atom a = .ok m ∧ m.powers = u.powers r.units := by
  cases a with
  | var name =>
      have hrel := h name
      rw [Bindings.unit_eq_ok_iff.1 hu] at hrel
      generalize hvalue : s.get? name = value at hrel
      cases hrel with
      | some hagree =>
          cases hagree with
          | unit hpowers => exact ⟨_, Bindings.unit_eq_ok_iff.2 hvalue, hpowers⟩
  | unit w =>
      cases hu
      exact ⟨_, rfl, Product.eval_single.trans Product.eval_single.symm⟩

/-- The two ways to replace the variables of a unit agree. -/
theorem Matches.toMeasure (h : r.Matches c b s) {u : UnitScheme} {v : UnitTerm}
    (hv : UnitScheme.toTerm b u = .ok v) (hterm : u.BindsExactly b.atom) (hmeasure : u.BindsExactly s.atom) :
    SameResult (UnitScheme.toMeasure s u) (r.unit v) := by
  -- Both sides have the powers of the written unit with the values of its variables put in.
  let powers (a : Atom Name) : Name → Int :=
    match s.atom a with
    | .ok m => m.powers
    | .error _ => 0
  have hatom : ∀ {a m}, s.atom a = .ok m → powers a = m.powers := fun hm => by simp only [powers, hm]
  have hvpowers : v.powers r.units = u.eval powers := by
    refine Product.eval_of_bind? (respects_atomPowers r.units) (fun a x hx => ?_) (hterm.bind?_eq hv)
    obtain ⟨m, hm, hpowers⟩ := h.exists_atom (toOption_eq_some_iff.1 hx)
    rw [hatom hm, hpowers]
    rfl
  have hmpowers : ∀ m, UnitScheme.toMeasure s u = .ok m → m.powers = v.powers r.units := by
    intro m hm
    rw [hvpowers]
    exact Product.eval_of_bind? Product.respects_unitPower
      (fun a x hx => (hatom (toOption_eq_some_iff.1 hx)).symm) (hmeasure.bind?_eq hm)
  obtain ⟨m, hm⟩ : ∃ m, UnitScheme.toMeasure s u = .ok m := by
    refine Product.exists_bindM_eq_ok_iff.2 fun a ha => ?_
    obtain ⟨x, hx⟩ := Product.exists_bindM_eq_ok_iff.1 ⟨v, hv⟩ a ha
    obtain ⟨m, hm, -⟩ := h.exists_atom hx
    exact ⟨m, hm⟩
  refine ⟨fun m' hm' => unit_eq_ok_iff.2 (hmpowers m' hm'), fun m' hm' => ?_⟩
  rw [Measure.eq_of_powers_eq ((unit_eq_ok_iff.1 hm').trans (hmpowers m hm).symm)]
  exact hm

section Types

variable {as : List (Arg UnitScheme Scheme)} {bs : List (Arg UnitTerm Term)} {fs : List (Field Scheme)}
  {gs : List (Field Term)} {ss : List Scheme} {ts : List Term}

theorem groundTagged_sameResult (c : Catalog) (name : Name) (values : List (Arg Measure GroundType))
    (part : Unresolved) :
    SameResult (Scheme.groundTagged c name values part) (Term.groundTagged c name values) := by
  unfold Scheme.groundTagged Term.groundTagged
  rcases c.lookup name values with _ | _ | d
  · exact .of_errors
  · exact .of_errors
  · exact .ok d

theorem groundFieldType_sameResult (c : Catalog) (required : Bool) (d : GroundType) :
    SameResult (Scheme.groundFieldType c required d) (Term.groundFieldType c required d) := by
  cases required with
  | true => exact .ok _
  | false => exact (SameResult.mapError _ _).trans (SameResult.mapError _ _).symm

theorem toGroundArgs_sameResult
    (h : Forall₂ (Arg.Agree (fun u v => SameResult (Scheme.groundUnit s u) (r.unit v))
      fun t t' => SameResult (t.toGround s c) (r.ground c t')) as bs) :
    SameResult (Scheme.toGroundArgs s c as) (Term.toGroundArgs c r.type r.unit bs) := by
  induction h with
  | nil => exact .ok _
  | cons hab _ ih =>
      cases hab with
      | unit h => exact h.bind fun _ => ih.bind fun _ => .ok _
      | type h => exact h.bind fun _ => ih.bind fun _ => .ok _

theorem toGroundFields_sameResult
    (h : Forall₂ (Field.Agree fun t t' => SameResult (t.toGround s c) (r.ground c t')) fs gs) :
    SameResult (Scheme.toGroundFields s c fs) (Term.toGroundFields c r.type r.unit gs) := by
  induction h with
  | nil => exact .ok _
  | @cons f g _ _ hfg _ ih =>
      obtain ⟨hname, htype, hrequired⟩ := hfg
      simp only [Scheme.toGroundFields, Term.toGroundFields, hname, hrequired]
      exact htype.bind fun d => (groundFieldType_sameResult c _ d).bind fun _ => ih.bind fun _ => .ok _

theorem toGroundParams_sameResult
    (h : Forall₂ (fun t t' => SameResult (t.toGround s c) (r.ground c t')) ss ts) :
    SameResult (Scheme.toGroundParams s c ss) (Term.toGroundParams c r.type r.unit ts) := by
  induction h with
  | nil => exact .ok _
  | cons hst _ ih => exact hst.bind fun _ => ih.bind fun _ => .ok _

theorem Matches.toGround_ident (h : r.Matches c b s) {name : Name} {value : Option Term}
    (hvalue : b.typeVar name = .ok value) :
    SameResult ((Scheme.ident name).toGround s c) (r.ground c (value.getD (.tagged name []))) := by
  have hrel := h name
  generalize hget : s.get? name = found at hrel
  cases value with
  | none =>
      rw [Bindings.typeVar_eq_ok_none_iff.1 hvalue] at hrel
      cases hrel
      rw [Scheme.toGround, Bindings.typeVar_eq_ok_none_iff.2 hget]
      exact groundTagged_sameResult c name [] _
  | some t =>
      rw [Bindings.typeVar_eq_ok_some_iff.1 hvalue] at hrel
      cases hrel with
      | some hagree =>
          cases hagree with
          | type hd =>
              rw [Scheme.toGround, Bindings.typeVar_eq_ok_some_iff.2 hget, Option.getD_some, hd]
              exact .ok _

/-- The two ways from a written type to a ground type agree. -/
theorem Matches.toGround (h : r.Matches c b s) {g : Scheme} {e : Term} (hordered : g.Ordered)
    (hunits : ∀ u, g.HasUnit u → u.BindsExactly b.atom ∧ u.BindsExactly s.atom) (he : g.toTerm b = .ok e) :
    SameResult (g.toGround s c) (r.ground c e) := by
  have hunit : ∀ {u v}, u.BindsExactly b.atom ∧ u.BindsExactly s.atom → UnitScheme.toTerm b u = .ok v →
      SameResult (Scheme.groundUnit s u) (r.unit v) := fun hu hv =>
    (SameResult.mapError _ _).trans (h.toMeasure hv hu.1 hu.2)
  induction hordered generalizing e with
  | primitive p =>
      cases he
      exact .ok _
  | number u =>
      obtain ⟨v, hv, rfl⟩ := map_eq_ok_iff.1 he
      exact (hunit (hunits u (Scheme.hasUnit_number u)) hv).map _
  | ident name =>
      obtain ⟨value, hvalue, rfl⟩ := map_eq_ok_iff.1 he
      exact h.toGround_ident hvalue
  | apply htypes ih =>
      obtain ⟨args', hargs, rfl⟩ := map_eq_ok_iff.1 he
      refine (toGroundArgs_sameResult ?_).bind fun values => groundTagged_sameResult c _ values _
      refine (forall₂_and_mem (Scheme.toTermArgs_eq_ok_iff.1 hargs)).imp fun a a' haa' => ?_
      obtain ⟨hmem, hagree⟩ := haa'
      cases hagree with
      | unit hv => exact .unit (hunit (hunits _ (Scheme.hasUnit_apply hmem)) hv)
      | type ht => exact .type (ih _ hmem (fun u hu => hunits u (hu.of_part (.arg hmem .self))) ht)
  | @record fields complete hfields htypes ih =>
      obtain ⟨fields', hfields', rfl⟩ := map_eq_ok_iff.1 he
      cases complete with
      | false => exact .of_errors
      | true =>
          refine (toGroundFields_sameResult ?_).map _
          refine (forall₂_and_mem (Scheme.toTermFields_eq_ok_iff.1 hfields')).imp fun f f' hff' => ?_
          obtain ⟨hmem, hagree⟩ := hff'
          exact ⟨hagree.name, ih f hmem (fun u hu => hunits u (hu.of_part (.field hmem .self))) hagree.type,
            hagree.required⟩
  | array helement ih =>
      obtain ⟨t, ht, rfl⟩ := map_eq_ok_iff.1 he
      exact (ih (fun u hu => hunits u (hu.of_part (.element .self))) ht).map _
  | function hparams hresult ihparams ihresult =>
      obtain ⟨params', hparams', he⟩ := bind_eq_ok_iff.1 he
      obtain ⟨result', hresult', he⟩ := bind_eq_ok_iff.1 he
      cases he
      refine (toGroundParams_sameResult ?_).bind fun _ => SameResult.bind ?_ fun _ => .ok _
      · refine (forall₂_and_mem (Scheme.toTermParams_eq_ok_iff.1 hparams')).imp fun t t' htt' => ?_
        exact ihparams t htt'.1 (fun u hu => hunits u (hu.of_part (.param htt'.1 .self))) htt'.2
      · exact ihresult (fun u hu => hunits u (hu.of_part (.result .self))) hresult'

end Types

end Reading

end Tabula
