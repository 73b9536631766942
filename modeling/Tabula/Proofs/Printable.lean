import Tabula.Proofs.AscendingKeys
import Tabula.Proofs.Atoms
import Tabula.Proofs.Declarations
import Tabula.Proofs.Equality
import Tabula.Proofs.Grammar
import Tabula.Proofs.Spelling

/-!
# Printable types

A type is printable if its written form can stand for it: names of tagged types are names and no keywords, a
tagged type that is applied has arguments, and units are declared.  Every phrase that the grammar derives from
tokens is printable, and a type that equals a printable one is printable too.

Fields and products are kept in order by what builds them, but the list of the fields of a record is a plain
list.  `Scheme.Ordered` says that it is in order.
-/

namespace Tabula

/-- A catalog that comes about by declarations, some of which may be refused. -/
inductive UnitCatalog.Built : UnitCatalog → Prop where
  | empty (settings : Settings) (score : Suggestion.Score) : Built ⟨[], settings, score⟩
  | declare {c : UnitCatalog} (h : Built c) (name : String) (description : String) :
      Built (c.declare name description).catalog

theorem UnitCatalog.Built.isValid {c : UnitCatalog} (h : c.Built) : ∀ u ∈ c.units, u.name.isValid = true := by
  induction h with
  | empty => simp [units]
  | declare h name description ih =>
      refine declare_preserves (P := fun c => ∀ u ∈ c.units, u.name.isValid = true) ih fun hvalid _ => ?_
      rw [units_add]
      exact List.forall_mem_append.2 ⟨ih, List.forall_mem_singleton.2 hvalid⟩

theorem UnitCatalog.name_of_find? {c : UnitCatalog} {n : Name} {u : SingleUnit} (h : c.find? n = some u) :
    u.name = n :=
  Entry.name_of_find? h

theorem UnitCatalog.mem_of_find? {c : UnitCatalog} {n : Name} {u : SingleUnit} (h : c.find? n = some u) :
    u ∈ c.units := by
  rw [find?_eq] at h
  exact List.mem_of_find?_eq_some h

section Printable

variable (units : UnitCatalog)

/-- A variable has a name that can be written, a unit is declared. -/
def Atom.Printable : Atom Name → Prop
  | .var v => v.isValid = true
  | .unit u => (units.find? u.name).isSome = true

/-- Every factor of the unit can be written. -/
def UnitScheme.Printable (u : UnitScheme) : Prop :=
  ∀ f ∈ u.factors, f.1.Printable units

/-- The written form of the type can stand for it. -/
inductive Scheme.Printable : Scheme → Prop where
  | primitive (p : Primitive) : Printable (.primitive p)
  | number {u : UnitScheme} (h : u.Printable units) : Printable (.number u)
  | ident {name : Name} (h : name.IsTypeName) : Printable (.ident name)
  | apply {name : Name} {args : List (Arg UnitScheme Scheme)} (h : name.IsTypeName) (hargs : args ≠ [])
      (hunits : ∀ u, .unit u ∈ args → UnitScheme.Printable units u)
      (htypes : ∀ t, .type t ∈ args → Printable t) : Printable (.apply name args)
  | record {fields : List (Field Scheme)} {complete : Bool} (hnames : ∀ f ∈ fields, f.name.isValid = true)
      (htypes : ∀ f ∈ fields, Printable f.type) : Printable (.record fields complete)
  | array {element : Scheme} (h : Printable element) : Printable (.array element)
  | function {params : List Scheme} {result : Scheme} (hparams : ∀ t ∈ params, Printable t)
      (hresult : Printable result) : Printable (.function params result)

end Printable

/-- The fields of every record in the type are in ascending order of their names. -/
inductive Scheme.Ordered : Scheme → Prop where
  | primitive (p : Primitive) : Ordered (.primitive p)
  | number (u : UnitScheme) : Ordered (.number u)
  | ident (name : Name) : Ordered (.ident name)
  | apply {name : Name} {args : List (Arg UnitScheme Scheme)} (htypes : ∀ t, .type t ∈ args → Ordered t) :
      Ordered (.apply name args)
  | record {fields : List (Field Scheme)} {complete : Bool} (h : Ascending Field.name fields)
      (htypes : ∀ f ∈ fields, Ordered f.type) : Ordered (.record fields complete)
  | array {element : Scheme} (h : Ordered element) : Ordered (.array element)
  | function {params : List Scheme} {result : Scheme} (hparams : ∀ t ∈ params, Ordered t)
      (hresult : Ordered result) : Ordered (.function params result)

section Equality

variable {units : UnitCatalog}

theorem Atom.Printable.of_compare {a b : Atom Name} (h : a.Printable units) (hab : compare a b = .eq) :
    b.Printable units := by
  cases a with
  | var v =>
      obtain rfl := compare_var_eq_iff.1 hab
      exact h
  | unit u =>
      obtain ⟨w, rfl, hname⟩ := compare_unit_eq_iff.1 hab
      simpa [Atom.Printable, hname] using h

theorem UnitScheme.Printable.of_beq {u v : UnitScheme} (h : u.Printable units) (huv : u == v) :
    v.Printable units := by
  intro g hg
  obtain ⟨f, hf, hcompare, -⟩ := exists_of_forall₂ (Product.beq_iff.1 huv) g hg
  exact (h f hf).of_compare hcompare

theorem Scheme.Printable.of_beq {s t : Scheme} (h : s.Printable units) (hst : s == t) : t.Printable units := by
  replace hst : Scheme.beq s t = true := hst
  induction h generalizing t with
  | primitive p =>
      cases t <;> simp only [Scheme.beq, Bool.false_eq_true] at hst
      exact .primitive _
  | number h =>
      cases t <;> simp only [Scheme.beq, Bool.false_eq_true] at hst
      exact .number (h.of_beq hst)
  | ident h =>
      cases t <;> simp only [Scheme.beq, Bool.false_eq_true, beq_iff_eq] at hst
      subst hst
      exact .ident h
  | apply h hargs hunits htypes ih =>
      cases t <;> simp only [Scheme.beq, Bool.false_eq_true, Bool.and_eq_true, beq_iff_eq] at hst
      obtain ⟨rfl, hst⟩ := hst
      have hst := Scheme.beqArgs_iff.1 hst
      refine .apply h (fun hnil => ?_) (fun u hu => ?_) (fun t ht => ?_)
      · subst hnil
        exact hargs (List.forall₂_nil_right_iff.1 hst)
      · obtain ⟨_, ha, hau⟩ := exists_of_forall₂ hst _ hu
        cases hau with
        | unit hw => exact (hunits _ ha).of_beq hw
      · obtain ⟨_, ha, hat⟩ := exists_of_forall₂ hst _ ht
        cases hat with
        | type hs => exact ih _ ha hs
  | record hnames htypes ih =>
      cases t <;> simp only [Scheme.beq, Bool.false_eq_true, Bool.and_eq_true] at hst
      have hst := exists_of_forall₂ (Scheme.beqFields_iff.1 hst.1)
      refine .record (fun g hg => ?_) (fun g hg => ?_)
      · obtain ⟨f, hf, hfg⟩ := hst g hg
        exact hfg.name ▸ hnames f hf
      · obtain ⟨f, hf, hfg⟩ := hst g hg
        exact ih f hf hfg.type
  | array h ih =>
      cases t <;> simp only [Scheme.beq, Bool.false_eq_true] at hst
      exact .array (ih hst)
  | function hparams hresult ihparams ihresult =>
      cases t <;> simp only [Scheme.beq, Bool.false_eq_true, Bool.and_eq_true] at hst
      refine .function (fun q hq => ?_) (ihresult hst.2)
      obtain ⟨p, hp, hpq⟩ := exists_of_forall₂ (Scheme.beqParams_iff.1 hst.1) q hq
      exact ihparams p hp hpq

end Equality

theorem UnitScheme.printable_iff {units : UnitCatalog} {u : UnitScheme} :
    u.Printable units ↔ ∀ a ∈ u.atoms, a.Printable units := by
  simp [UnitScheme.Printable, Product.atoms]

/-- Everything in the phrase can be written. -/
def Phrase.Printable (units : UnitCatalog) : Phrase → Prop
  | .unit u | .quotient u | .single u => u.Printable units
  | .atom a => a.Printable units
  | .type t => t.Printable units
  | .params ts => ∀ t ∈ ts, t.Printable units
  | .field f => f.name.isValid = true ∧ f.type.Printable units
  | .fields fs _ => ∀ f ∈ fs, f.name.isValid = true ∧ f.type.Printable units
  | .args as => (∀ u, .unit u ∈ as → UnitScheme.Printable units u) ∧ ∀ t, .type t ∈ as → t.Printable units

/-- A phrase that is derived from tokens that were read is printable. -/
theorem Derives.printable {units : UnitCatalog} {ts : List Token} {p : Phrase} (h : Derives units ts p)
    (hts : ∀ t ∈ ts, t.WellFormed) : p.Printable units := by
  induction h with
  | oneQuotient _ ih | oneSingle _ ih => exact ih hts
  | times _ _ hw ihu ihv =>
      obtain ⟨hleft, hright⟩ := List.forall_mem_append.1 hts
      have hu := UnitScheme.printable_iff.1 (ihu hleft)
      have hv := UnitScheme.printable_iff.1 (ihv (List.forall_mem_cons.1 hright).2)
      refine UnitScheme.printable_iff.2 fun a ha => ?_
      exact (Product.mem_atoms_of_times? hw ha).elim (hu a) (hv a)
  | divided _ _ hw ihu ihv =>
      obtain ⟨hleft, hright⟩ := List.forall_mem_append.1 hts
      have hu := UnitScheme.printable_iff.1 (ihu hleft)
      have hv := UnitScheme.printable_iff.1 (ihv (List.forall_mem_cons.1 hright).2)
      refine UnitScheme.printable_iff.2 fun a ha => ?_
      exact (Product.mem_atoms_of_divideByInverse? hw ha).elim (hu a) (hv a)
  | one => exact fun f hf => by cases hf
  | bracketed _ ih =>
      simp only [List.cons_append, List.forall_mem_cons, List.forall_mem_append] at hts
      exact ih hts.2.1
  | firstPower _ ih =>
      refine UnitScheme.printable_iff.2 fun a ha => ?_
      obtain rfl := List.mem_singleton.1 ha
      exact ih hts
  | power _ hw ih =>
      refine UnitScheme.printable_iff.2 fun a ha => ?_
      obtain rfl := List.mem_singleton.1 (Product.mem_atoms_of_raise? hw ha)
      exact ih (List.forall_mem_append.1 hts).1
  | unitName hn hu =>
      show Option.isSome _ = true
      rw [UnitCatalog.name_of_find? hu, hu]
      rfl
  | unitVar hn => exact (hts _ (by simp)).isValid hn
  | primitive hk => exact .primitive _
  | plainNumber => exact .number fun f hf => by cases hf
  | number _ ih =>
      simp only [List.cons_append, List.forall_mem_cons, List.forall_mem_append] at hts
      exact .number (ih hts.2.2.1)
  | array _ ih =>
      simp only [List.cons_append, List.forall_mem_cons, List.forall_mem_append] at hts
      exact .array (ih hts.2.1)
  | constant _ ih =>
      simp only [List.cons_append, List.forall_mem_cons, List.forall_mem_append] at hts
      exact .function (by simp) (ih hts.2.2.2.2.1)
  | function _ _ ihp ihr =>
      simp only [List.cons_append, List.forall_mem_cons, List.forall_mem_append] at hts
      exact .function (ihp hts.2.2.1.1) (ihr hts.2.2.1.2.2.2)
  | lastParam _ ih => exact List.forall_mem_singleton.2 (ih hts)
  | moreParams _ _ iht ihp =>
      simp only [List.forall_mem_cons, List.forall_mem_append] at hts
      exact List.forall_mem_cons.2 ⟨iht hts.1, ihp hts.2.2⟩
  | emptyRecord => exact .record (by simp) (by simp)
  | record _ _ ih =>
      simp only [List.cons_append, List.forall_mem_cons, List.forall_mem_append] at hts
      have hfields := ih hts.2.1
      refine .record (fun f hf => ?_) (fun f hf => ?_)
      · exact (hfields f (Ascending.mem_of_mem_ofList hf)).1
      · exact (hfields f (Ascending.mem_of_mem_ofList hf)).2
  | dots => exact fun f hf => by cases hf
  | lastField _ ih => exact List.forall_mem_singleton.2 (ih hts)
  | moreFields _ _ ihf ihfs =>
      simp only [List.forall_mem_cons, List.forall_mem_append] at hts
      exact List.forall_mem_cons.2 ⟨ihf hts.1, ihfs hts.2.2⟩
  | required hn _ ih =>
      simp only [List.forall_mem_cons] at hts
      exact ⟨hts.1.isValid hn, ih hts.2.2⟩
  | optional hn _ ih =>
      simp only [List.forall_mem_cons] at hts
      exact ⟨hts.1.isValid hn, ih hts.2.2.2⟩
  | tagged _ ih =>
      obtain ⟨hname, hargs⟩ := List.forall_mem_cons.1 hts
      obtain ⟨hunits, htypes⟩ := ih hargs
      show (Scheme.tagged _ _).Printable units
      unfold Scheme.tagged
      split
      · exact .ident hname
      · rename_i hne
        exact .apply hname (by simpa using hne) hunits htypes
  | noArgs => exact ⟨by simp, by simp⟩
  | typeArg _ _ iht ihas =>
      simp only [List.cons_append, List.forall_mem_cons, List.forall_mem_append] at hts
      obtain ⟨hunits, htypes⟩ := ihas hts.2.2.2
      refine ⟨fun u hu => hunits u (by simpa using hu), fun t ht => ?_⟩
      rcases List.mem_cons.1 ht with heq | ht
      · cases heq
        exact iht hts.2.1
      · exact htypes t ht
  | unitArg _ _ ihu ihas =>
      simp only [List.cons_append, List.forall_mem_cons, List.forall_mem_append] at hts
      obtain ⟨hunits, htypes⟩ := ihas hts.2.2.2.2.2
      refine ⟨fun u hu => ?_, fun t ht => htypes t (by simpa using ht)⟩
      rcases List.mem_cons.1 hu with heq | hu
      · cases heq
        exact ihu hts.2.2.1
      · exact hunits u hu

end Tabula
