import Tabula.Catalog.Sample
import Tabula.Proofs.Repair
import Tabula.Proofs.WrittenGroundTypes

/-!
# Values of type variables, put in place beforehand

A type variable can be given its value by the substitution, while a written type is made ground, or by replacing it in
the written type beforehand.  Both ways give the same ground type.

A name by itself is a variable or a tagged type without arguments, and which of the two is decided only when the type
is made ground.  So the value that is put in place must not bring in names that are bound to something else.  The name
of the variable itself is released by the replacement: in the value it stands for the tagged type of that name.
-/

namespace Tabula

open List (Forall₂)

namespace Bindings

variable {υ τ : Type} {b : Bindings υ τ} {a name : Name}

/-- The bindings of all other names. -/
def without (b : Bindings υ τ) (a : Name) : Bindings υ τ :=
  ⟨b.entries.filter fun entry => entry.1 ≠ a, b.ordered.filter _⟩

theorem get?_without_self : (b.without a).get? a = none := by
  have habsent : a ∉ (b.without a).entries.map Prod.fst := by simp [without]
  rw [get?, Ascending.find?_eq_none_iff.2 habsent]
  rfl

theorem get?_without_of_ne (h : name ≠ a) : (b.without a).get? name = b.get? name := by
  refine Option.ext fun value => ⟨fun hvalue => ?_, fun hvalue => ?_⟩
  · exact get?_of_mem (List.mem_filter.1 (get?_eq_some hvalue)).1
  · have hmem : (name, value) ∈ (b.without a).entries :=
      List.mem_filter.2 ⟨get?_eq_some hvalue, by simpa using h⟩
    exact get?_of_mem hmem

end Bindings

section Units

variable {s : Substitution} {a : Name} {d : GroundType}

/-- A variable with a type for its value is of no use in a unit, whether it is bound or not. -/
theorem Substitution.atom_without (hs : s.get? a = some (.type d)) (b : Atom Name) :
    SameResult (Substitution.atom s b) (Substitution.atom (s.without a) b) := by
  cases b with
  | unit u => exact .refl _
  | var v =>
      by_cases hv : v = a
      · rw [hv]
        simp only [Substitution.atom, Bindings.unit, hs, Bindings.get?_without_self]
        exact .of_errors
      · simp only [Substitution.atom, Bindings.unit, Bindings.get?_without_of_ne hv]
        exact .refl _

/-- A unit has the same value if its factors have. -/
theorem Product.bindM_sameResult {ε ε' α β : Type} [Ord α] [Ord β] [Std.TransOrd β]
    {f : α → Except ε (Product β)} {g : α → Except ε' (Product β)} (h : ∀ x, SameResult (f x) (g x)) (u : Product α) :
    SameResult (u.bindM f) (u.bindM g) := by
  refine ⟨fun w hw => ?_, fun w hw => ?_⟩
  · obtain ⟨values, hvalues, hw⟩ := Product.bindM_eq_ok_iff.1 hw
    exact Product.bindM_eq_ok_iff.2 ⟨values, hvalues.imp fun _ _ hx => ⟨(h _).forward _ hx.1, hx.2⟩, hw⟩
  · obtain ⟨values, hvalues, hw⟩ := Product.bindM_eq_ok_iff.1 hw
    exact Product.bindM_eq_ok_iff.2 ⟨values, hvalues.imp fun _ _ hx => ⟨(h _).backward _ hx.1, hx.2⟩, hw⟩

theorem Scheme.groundUnit_without (hs : s.get? a = some (.type d)) (u : UnitScheme) :
    SameResult (groundUnit s u) (groundUnit (s.without a) u) := by
  have hmeasure : SameResult (u.toMeasure s) (u.toMeasure (s.without a)) :=
    Product.bindM_sameResult (Substitution.atom_without hs) u
  exact (SameResult.mapError _ _).trans (hmeasure.trans (SameResult.mapError _ _).symm)

end Units

namespace Scheme

variable {s : Substitution} {c : Catalog} {a : Name} {d : GroundType}

theorem replaceArgs_agree {P : UnitScheme → UnitScheme → Prop} {Q : Scheme → Scheme → Prop} {target new : Scheme}
    {args : List (Arg UnitScheme Scheme)} (hunit : ∀ u, P u u)
    (htype : ∀ t, .type t ∈ args → Q t (t.replace target new)) :
    Forall₂ (Arg.Agree P Q) args (replaceArgs args target new) := by
  induction args with
  | nil => exact .nil
  | cons x args ih =>
      have hrest := ih fun t ht => htype t (List.mem_cons_of_mem _ ht)
      cases x with
      | unit u => exact .cons (.unit (hunit u)) hrest
      | type t => exact .cons (.type (htype t List.mem_cons_self)) hrest

/-- A type with the value of a variable put in place is made ground without the variable, if that value is what it is
written as. -/
theorem toGround_replace_sameResult (hs : s.get? a = some (.type d))
    (hvalue : d.toScheme.toGround (s.without a) c = .ok d) (t : Scheme) :
    SameResult (t.toGround s c) ((t.replace (.ident a) d.toScheme).toGround (s.without a) c) := by
  induction t using induction_on_children with
  | step t ih =>
      cases t with
      | primitive p => exact .refl _
      | number u => exact (groundUnit_without hs u).map _
      | ident name =>
          have hbeq : (Scheme.ident name == Scheme.ident a) = (name == a) := rfl
          by_cases hname : name = a
          · rw [beq_iff_eq.2 hname] at hbeq
            rw [replace_of_beq hbeq, hvalue, hname, toGround, Bindings.typeVar_eq_ok_some_iff.2 hs]
            exact .refl _
          · rw [beq_eq_false_iff_ne.2 hname] at hbeq
            have hself : (ident name).replace (ident a) d.toScheme = ident name :=
              replace_eq_self hbeq fun _ hc => absurd hc List.not_mem_nil
            rw [hself, toGround, toGround, Bindings.typeVar, Bindings.typeVar, Bindings.get?_without_of_ne hname]
            exact .refl _
      | apply name args =>
          refine SameResult.bind (toGroundArgs_related stepwise_sameResult ?_) fun values => groundTagged_part _ _ _ _
          exact replaceArgs_agree (groundUnit_without hs) fun t ht => ih t (mem_children_apply.2 ht)
      | record fields complete =>
          cases complete with
          -- The errors differ, as each shows its own fields.
          | false => exact .of_errors
          | true =>
              refine SameResult.map (toGroundFields_related stepwise_sameResult (fun _ _ => .refl _) ?_) _
              rw [replaceFields_eq_map, List.forall₂_map_right_iff]
              exact List.forall₂_same.2 fun f hf => ⟨rfl, ih f.type (List.mem_map_of_mem hf), rfl⟩
      | array element => exact (ih element List.mem_cons_self).map _
      | function params result =>
          have hparams : SameResult (toGroundParams s c params)
              (toGroundParams (s.without a) c (replaceParams params (.ident a) d.toScheme)) := by
            refine toGroundParams_related stepwise_sameResult ?_
            rw [replaceParams_eq_map, List.forall₂_map_right_iff]
            exact List.forall₂_same.2 fun t ht => ih t (List.mem_append_left _ ht)
          have hresult := ih result (List.mem_append_right _ List.mem_cons_self)
          exact hparams.bind fun _ => hresult.bind fun _ => .refl _

/-- A type variable can be replaced by the written form of its value.  The value is valid, and its plain names are no
other variables. -/
theorem toGround_replace_variable (hs : s.get? a = some (.type d)) (hd : d.Valid c)
    (hplain : ∀ name, d.HasPlainName name → (s.without a).get? name = none) (t : Scheme) (x : GroundType) :
    t.toGround s c = .ok x ↔ (t.replace (.ident a) d.toScheme).toGround (s.without a) c = .ok x := by
  have hsame := toGround_replace_sameResult hs (hd.toGround_toScheme_of_unbound hplain) t
  exact ⟨hsame.forward x, hsame.backward x⟩

/-- The variable has the name of the tagged type that is its value inside an array.  It is used in an optional field
and in an argument, and a unit variable is used beside it. -/
theorem toGround_replace_variable_of_released_name :
    let c := Catalog.sample
    let d : GroundType := .array (.tagged "Colour" [])
    let s : Substitution := (Bindings.empty.insert "Colour" (.type d)).insert "u" (.unit (.single "m"))
    let t : Scheme := .function [.record [⟨"shade", .ident "Colour", false⟩] true]
      (.apply "Pair" [.type (.apply "Measured" [.unit (.single (.var "u"))]), .type (.ident "Colour")])
    let x : GroundType := .function [.record [("shade", .tagged "Optional" [.type d])]]
      (.tagged "Pair" [.type (.tagged "Measured" [.unit (.single "m")]), .type d])
    s.get? "Colour" = some (.type d) ∧ d.Valid c ∧ d.HasPlainName "Colour" ∧ t.toGround s c = .ok x ∧
      (t.replace (.ident "Colour") d.toScheme).toGround (s.without "Colour") c = .ok x := by
  intro c d s t x
  have hget : s.get? "Colour" = some (.type d) := by
    simp only [s, d]
    rfl
  have hvalid : d.Valid c := .array (.tagged (d := ⟨"Colour", [], _⟩) rfl rfl nofun)
  have hplain : ∀ name, d.HasPlainName name → (s.without "Colour").get? name = none := by
    intro name hname
    simp only [d] at hname
    cases hname with
    | element hname =>
        cases hname with
        | here => exact Bindings.get?_without_self
        | arg ht => cases ht
  have hground : t.toGround s c = .ok x := by
    simp only [t, s, c, x, d]
    rfl
  exact ⟨hget, hvalid, .element .here, hground, (toGround_replace_variable hget hvalid hplain t x).1 hground⟩

end Scheme

end Tabula
