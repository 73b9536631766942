import Tabula.Proofs.SchemeParts
import Tabula.Scheme.Grounding

/-!
# Grounding step by step

A written type is made ground part by part, and a relation between computations that passes through their steps
holds of the whole if it holds of the parts.  A catalog has its say in two places only: where a tagged type is looked
up, and where an optional field gets its wrapper.  So two catalogs need to be compared in these two places only.

The lemmas about lists compare two substitutions as well.
-/

namespace Tabula

open List (Forall₂)

namespace Scheme

variable {R : (α : Type) → Except GroundingError α → Except GroundingError α → Prop} {s s' : Substitution}
  {c c' : Catalog}

theorem toGroundArgs_related (hR : Stepwise R) {as bs : List (Arg UnitScheme Scheme)}
    (h : Forall₂ (Arg.Agree (fun u v => R _ (groundUnit s u) (groundUnit s' v))
      fun t t' => R _ (t.toGround s c) (t'.toGround s' c')) as bs) :
    R _ (toGroundArgs s c as) (toGroundArgs s' c' bs) := by
  induction h with
  | nil => exact hR.refl _
  | cons hab _ ih =>
      cases hab with
      | unit huv => exact hR.bind huv fun _ => hR.bind ih fun _ => hR.refl _
      | type ht => exact hR.bind ht fun _ => hR.bind ih fun _ => hR.refl _

theorem toGroundFields_related (hR : Stepwise R)
    (hfield : ∀ required d, R _ (groundFieldType c required d) (groundFieldType c' required d))
    {fs gs : List (Field Scheme)}
    (h : Forall₂ (Field.Agree fun t t' => R _ (t.toGround s c) (t'.toGround s' c')) fs gs) :
    R _ (toGroundFields s c fs) (toGroundFields s' c' gs) := by
  induction h with
  | nil => exact hR.refl _
  | @cons f g _ _ hfg _ ih =>
      rw [toGroundFields, toGroundFields, hfg.name, hfg.required]
      exact hR.bind hfg.type fun d => hR.bind (hfield g.required d) fun _ => hR.bind ih fun _ => hR.refl _

theorem toGroundParams_related (hR : Stepwise R) {ts ts' : List Scheme}
    (h : Forall₂ (fun t t' => R _ (t.toGround s c) (t'.toGround s' c')) ts ts') :
    R _ (toGroundParams s c ts) (toGroundParams s' c' ts') := by
  induction h with
  | nil => exact hR.refl _
  | cons ht _ ih => exact hR.bind ht fun _ => hR.bind ih fun _ => hR.refl _

/-- What a type is made into by two catalogs is related if the two lookups are, of tagged types and of the wrapper of
optional fields. -/
theorem toGround_related (hR : Stepwise R)
    (htagged : ∀ name values part, R _ (groundTagged c name values part) (groundTagged c' name values part))
    (hfield : ∀ required d, R _ (groundFieldType c required d) (groundFieldType c' required d)) (t : Scheme) :
    R _ (t.toGround s c) (t.toGround s c') := by
  induction t using induction_on_children with
  | step t ih =>
      cases t with
      | primitive p => exact hR.refl _
      | number u => exact hR.refl _
      | ident name =>
          rw [toGround, toGround]
          split
          · exact hR.refl _
          · exact hR.refl _
          · exact htagged name [] _
      | apply name args =>
          refine hR.bind (toGroundArgs_related hR ?_) fun values => htagged name values _
          refine List.forall₂_same.2 fun a ha => ?_
          cases a with
          | unit u => exact .unit (hR.refl _)
          | type t => exact .type (ih t (mem_children_apply.2 ha))
      | record fields complete =>
          rw [toGround, toGround]
          split
          · refine hR.map (toGroundFields_related hR hfield (List.forall₂_same.2 fun f hf => ?_)) _
            exact ⟨rfl, ih f.type (List.mem_map_of_mem hf), rfl⟩
          -- An open record fails alike, with a suggestion that no catalog has a part in.
          · exact hR.refl _
      | array element => exact hR.map (ih element List.mem_cons_self) _
      | function params result =>
          have hparams := toGroundParams_related hR (List.forall₂_same.2 fun t ht => ih t (List.mem_append_left _ ht))
          have hresult := ih result (List.mem_append_right _ List.mem_cons_self)
          exact hR.bind hparams fun _ => hR.bind hresult fun _ => hR.refl _

end Scheme

end Tabula
