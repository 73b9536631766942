import Tabula.Proofs.Lists
import Tabula.Scheme.Basic

/-!
# Equality up to descriptions

Units and types are compared with `==`, which passes over the descriptions of declared units.  Here the
comparisons of lists that it consists of are turned into statements about the members of the lists.
-/

namespace Tabula

open List (Forall₂)

/-- The fields agree, where `R` is how their types agree. -/
structure Field.Agree {σ τ : Type} (R : σ → τ → Prop) (f : Field σ) (g : Field τ) : Prop where
  name : f.name = g.name
  type : R f.type g.type
  required : f.required = g.required

theorem Field.map_name_of_agree {σ τ : Type} {R : σ → τ → Prop} {fs : List (Field σ)} {gs : List (Field τ)}
    (h : Forall₂ (Field.Agree R) fs gs) : fs.map Field.name = gs.map Field.name := by
  induction h with
  | nil => rfl
  | cons hfg _ ih => rw [List.map_cons, List.map_cons, hfg.name, ih]

theorem Field.agree_iff_of_type {σ τ : Type} {R S : σ → τ → Prop} {f : Field σ} {g : Field τ}
    (h : ∀ {t}, R f.type t ↔ S f.type t) : Field.Agree R f g ↔ Field.Agree S f g :=
  ⟨fun hfg => ⟨hfg.name, h.1 hfg.type, hfg.required⟩, fun hfg => ⟨hfg.name, h.2 hfg.type, hfg.required⟩⟩

/-- Fields agree one by one if their names, types and flags do. -/
theorem Field.forall₂_agree_iff {σ τ : Type} {R : σ → τ → Prop} {fs : List (Field σ)} {gs : List (Field τ)} :
    Forall₂ (Field.Agree R) fs gs ↔ fs.map Field.name = gs.map Field.name ∧
      Forall₂ R (fs.map Field.type) (gs.map Field.type) ∧ fs.map Field.required = gs.map Field.required := by
  induction fs generalizing gs with
  | nil => cases gs <;> simp
  | cons f fs ih =>
      cases gs with
      | nil => simp
      | cons g gs =>
          simp only [List.forall₂_cons, List.map_cons, List.cons.injEq, ih]
          constructor
          · rintro ⟨⟨hname, htype, hrequired⟩, hnames, htypes, hflags⟩
            exact ⟨⟨hname, hnames⟩, ⟨htype, htypes⟩, hrequired, hflags⟩
          · rintro ⟨⟨hname, hnames⟩, ⟨htype, htypes⟩, hrequired, hflags⟩
            exact ⟨⟨hname, htype, hrequired⟩, hnames, htypes, hflags⟩

/-- The arguments are of one kind and agree, where `R` is how units agree and `S` is how types agree. -/
inductive Arg.Agree {υ υ' τ τ' : Type} (R : υ → υ' → Prop) (S : τ → τ' → Prop) :
    Arg υ τ → Arg υ' τ' → Prop where
  | unit {u : υ} {v : υ'} (h : R u v) : Agree R S (.unit u) (.unit v)
  | type {s : τ} {t : τ'} (h : S s t) : Agree R S (.type s) (.type t)

theorem Arg.Agree.imp_type {υ υ' τ τ' : Type} {R : υ → υ' → Prop} {S S' : τ → τ' → Prop} {a : Arg υ τ}
    {b : Arg υ' τ'} (hagree : Arg.Agree R S a b) (h : ∀ s, a = .type s → ∀ t, S s t → S' s t) :
    Arg.Agree R S' a b := by
  cases hagree with
  | unit hu => exact .unit hu
  | type ht => exact .type (h _ rfl _ ht)

namespace Atom

variable {ν : Type} [Ord ν]

theorem compare_var_eq_iff [Std.LawfulEqOrd ν] {v : ν} {a : Atom ν} : compare (.var v) a = .eq ↔ a = .var v := by
  cases a with
  | var w =>
      rw [compare_var, Std.LawfulEqOrd.compare_eq_iff_eq]
      exact ⟨fun h => h ▸ rfl, fun h => by cases h; rfl⟩
  | unit w => exact iff_of_false (fun h => by cases h) (fun h => by cases h)

theorem compare_unit_eq_iff {u : SingleUnit} {a : Atom ν} :
    compare (.unit u) a = .eq ↔ ∃ w, a = .unit w ∧ w.name = u.name := by
  cases a with
  | var w => exact iff_of_false (fun h => by cases h) (fun ⟨_, h, _⟩ => by cases h)
  | unit w =>
      rw [compare_unit, Std.LawfulEqOrd.compare_eq_iff_eq]
      exact ⟨fun h => ⟨w, rfl, h.symm⟩, fun ⟨_, h, hname⟩ => by cases h; exact hname.symm⟩

end Atom

theorem Product.eq_of_factors_eq {α : Type} [Ord α] {u v : Product α} (h : u.factors = v.factors) : u = v := by
  cases u
  cases v
  cases h
  rfl

/-- Equal products have the same atoms with the same powers, one by one. -/
theorem Product.beq_iff {α : Type} [Ord α] {u v : Product α} :
    u == v ↔ Forall₂ (fun f g => compare f.1 g.1 = .eq ∧ f.2 = g.2) u.factors v.factors := by
  have hsame : ∀ fs gs : List (α × Exponent), sameFactors fs gs = true ↔
      Forall₂ (fun f g => compare f.1 g.1 = .eq ∧ f.2 = g.2) fs gs := by
    intro fs
    induction fs with
    | nil =>
        intro gs
        cases gs with
        | nil => simp [sameFactors]
        | cons g gs => simp [sameFactors]
    | cons f fs ih =>
        intro gs
        cases gs with
        | nil => simp [sameFactors]
        | cons g gs => simp [sameFactors, ih, List.forall₂_cons, Ordering.isEq_iff_eq_eq]
  exact hsame _ _

theorem Product.beq_refl {α : Type} [Ord α] [Std.ReflOrd α] (u : Product α) : u == u :=
  Product.beq_iff.2 (List.forall₂_same.2 fun _ _ => ⟨Std.ReflOrd.compare_self, rfl⟩)

namespace Scheme

theorem beqParams_iff {ss ts : List Scheme} : beqParams ss ts = true ↔ Forall₂ (fun s t => s == t) ss ts := by
  induction ss generalizing ts with
  | nil => cases ts <;> simp [beqParams]
  | cons s ss ih =>
      cases ts with
      | nil => simp [beqParams]
      | cons t ts =>
          rw [beqParams, Bool.and_eq_true, ih, List.forall₂_cons]
          rfl

theorem beqFields_iff {fs gs : List (Field Scheme)} :
    beqFields fs gs = true ↔ Forall₂ (Field.Agree fun s t => s == t) fs gs := by
  induction fs generalizing gs with
  | nil => cases gs <;> simp [beqFields]
  | cons f fs ih =>
      cases gs with
      | nil => simp [beqFields]
      | cons g gs =>
          simp only [beqFields, Bool.and_eq_true, beq_iff_eq, ih, List.forall₂_cons]
          refine and_congr_left fun _ => ⟨fun ⟨⟨hname, htype⟩, hrequired⟩ => ⟨hname, htype, hrequired⟩, ?_⟩
          exact fun h => ⟨⟨h.name, h.type⟩, h.required⟩

theorem beqArgs_iff {as bs : List (Arg UnitScheme Scheme)} :
    beqArgs as bs = true ↔ Forall₂ (Arg.Agree (fun u v => u == v) fun s t => s == t) as bs := by
  induction as generalizing bs with
  | nil => cases bs <;> simp [beqArgs]
  | cons a as ih =>
      cases bs with
      | nil => cases a <;> simp [beqArgs]
      | cons b bs =>
          rw [List.forall₂_cons, ← ih]
          cases a <;> cases b <;> simp only [beqArgs, Bool.and_eq_true, Bool.false_eq_true, false_iff]
          · exact and_congr_left fun _ => ⟨fun h => .unit h, fun h => by cases h; assumption⟩
          · exact fun h => by cases h.1
          · exact fun h => by cases h.1
          · exact and_congr_left fun _ => ⟨fun h => .type h, fun h => by cases h; assumption⟩

end Scheme

end Tabula
