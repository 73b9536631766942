import Mathlib.Data.List.Forall2
import Tabula.Proofs.Results

/-!
# Lists in step

What two lists have in common whose members correspond one by one, and how such lists arise: a traversal that
succeeds has succeeded at every member.
-/

namespace Tabula

open List (Forall₂)

variable {α β : Type}

theorem exists_of_forall₂ {R : α → β → Prop} {xs : List α} {ys : List β} (h : Forall₂ R xs ys) :
    ∀ y ∈ ys, ∃ x ∈ xs, R x y := by
  induction h with
  | nil => simp
  | cons hxy _ ih =>
      refine List.forall_mem_cons.2 ⟨⟨_, List.mem_cons_self, hxy⟩, fun y hy => ?_⟩
      obtain ⟨x, hx, hR⟩ := ih y hy
      exact ⟨x, List.mem_cons_of_mem _ hx, hR⟩

theorem forall₂_and_mem {R : α → β → Prop} {xs : List α} {ys : List β} (h : Forall₂ R xs ys) :
    Forall₂ (fun x y => x ∈ xs ∧ R x y) xs ys := by
  induction h with
  | nil => exact .nil
  | cons hxy _ ih =>
      exact .cons ⟨List.mem_cons_self, hxy⟩ (ih.imp fun _ _ h => ⟨List.mem_cons_of_mem _ h.1, h.2⟩)

theorem forall₂_iff_of_mem {R S : α → β → Prop} {xs : List α} {ys : List β}
    (h : ∀ x ∈ xs, ∀ y, R x y ↔ S x y) : Forall₂ R xs ys ↔ Forall₂ S xs ys := by
  constructor
  · exact fun hR => (forall₂_and_mem hR).imp fun x y hxy => (h x hxy.1 y).1 hxy.2
  · exact fun hS => (forall₂_and_mem hS).imp fun x y hxy => (h x hxy.1 y).2 hxy.2

theorem exists_forall₂ {R : α → β → Prop} {xs : List α} (h : ∀ x ∈ xs, ∃ y, R x y) : ∃ ys, Forall₂ R xs ys := by
  induction xs with
  | nil => exact ⟨[], .nil⟩
  | cons x xs ih =>
      obtain ⟨⟨y, hy⟩, hxs⟩ := List.forall_mem_cons.1 h
      obtain ⟨ys, hys⟩ := ih hxs
      exact ⟨y :: ys, .cons hy hys⟩

/-- If there is something between any two members that correspond, there is a list between the lists. -/
theorem exists_forall₂_between {γ : Type} {R : α → β → Prop} {S : α → γ → Prop} {T : γ → β → Prop} {xs : List α}
    {ys : List β} (h : Forall₂ R xs ys) (hbetween : ∀ x y, R x y → ∃ z, S x z ∧ T z y) :
    ∃ zs, Forall₂ S xs zs ∧ Forall₂ T zs ys := by
  induction h with
  | nil => exact ⟨[], .nil, .nil⟩
  | cons hxy _ ih =>
      obtain ⟨z, hxz, hzy⟩ := hbetween _ _ hxy
      obtain ⟨zs, hleft, hright⟩ := ih
      exact ⟨z :: zs, .cons hxz hleft, .cons hzy hright⟩

theorem map_eq_map_iff_forall₂ {γ : Type} {f : α → γ} {g : β → γ} {xs : List α} {ys : List β} :
    xs.map f = ys.map g ↔ Forall₂ (fun x y => f x = g y) xs ys := by
  rw [← List.forall₂_eq_eq_eq, List.forall₂_map_left_iff, List.forall₂_map_right_iff]

/-- Without assumptions on the comparison, duplicates are left out and nothing is added. -/
theorem eraseDups_sublist [BEq α] : (xs : List α) → xs.eraseDups.Sublist xs
  | [] => .slnil
  | x :: xs => by
      rw [List.eraseDups_cons]
      exact .cons_cons x ((eraseDups_sublist _).trans List.filter_sublist)
termination_by xs => xs.length
decreasing_by exact Nat.lt_succ_of_le (List.length_filter_le _ _)

/-- A fold whose steps can fail gives what the fold gives whose steps do not, if it gives anything. -/
theorem foldl_eq_of_foldlM {step : β → α → β} {step? : β → α → Option β}
    (hstep : ∀ b a c, step? b a = some c → step b a = c) {xs : List α} {b c : β} (h : xs.foldlM step? b = some c) :
    xs.foldl step b = c := by
  induction xs generalizing b with
  | nil =>
      cases h
      rfl
  | cons x xs ih =>
      rw [List.foldlM_cons] at h
      obtain ⟨d, hd, hrest⟩ := Option.bind_eq_some_iff.1 h
      rw [List.foldl_cons, hstep b x d hd]
      exact ih hrest

theorem mapM_eq_some_iff {f : α → Option β} {xs : List α} {ys : List β} :
    xs.mapM f = some ys ↔ Forall₂ (fun x y => f x = some y) xs ys := by
  induction xs generalizing ys with
  | nil => cases ys <;> simp
  | cons x xs ih =>
      rw [List.mapM_cons, List.forall₂_cons_left_iff]
      constructor
      · intro h
        obtain ⟨y, hy, h⟩ := Option.bind_eq_some_iff.1 h
        obtain ⟨zs, hzs, h⟩ := Option.bind_eq_some_iff.1 h
        cases h
        exact ⟨y, zs, hy, ih.1 hzs, rfl⟩
      · rintro ⟨y, zs, hy, hzs, rfl⟩
        exact Option.bind_eq_some_iff.2 ⟨y, hy, Option.bind_eq_some_iff.2 ⟨zs, ih.2 hzs, rfl⟩⟩

theorem mapM_eq_ok_iff {ε : Type} {f : α → Except ε β} {xs : List α} {ys : List β} :
    xs.mapM f = .ok ys ↔ Forall₂ (fun x y => f x = .ok y) xs ys := by
  induction xs generalizing ys with
  | nil => cases ys <;> simp [pure, Except.pure]
  | cons x xs ih =>
      rw [List.mapM_cons, List.forall₂_cons_left_iff]
      constructor
      · intro h
        obtain ⟨y, hy, h⟩ := bind_eq_ok_iff.1 h
        obtain ⟨zs, hzs, h⟩ := bind_eq_ok_iff.1 h
        cases h
        exact ⟨y, zs, hy, ih.1 hzs, rfl⟩
      · rintro ⟨y, zs, hy, hzs, rfl⟩
        exact bind_eq_ok_iff.2 ⟨y, hy, bind_eq_ok_iff.2 ⟨zs, ih.2 hzs, rfl⟩⟩

/-- A traversal that fails has failed at one of the members. -/
theorem exists_of_mapM_eq_error {ε : Type} {f : α → Except ε β} {xs : List α} {e : ε}
    (h : xs.mapM f = .error e) : ∃ x ∈ xs, f x = .error e := by
  induction xs with
  | nil => cases h
  | cons x xs ih =>
      rw [List.mapM_cons] at h
      rcases bind_eq_error_iff.1 h with hx | ⟨y, -, h⟩
      · exact ⟨x, List.mem_cons_self, hx⟩
      · rcases bind_eq_error_iff.1 h with hxs | ⟨ys, -, h⟩
        · obtain ⟨x', hx', herror⟩ := ih hxs
          exact ⟨x', List.mem_cons_of_mem _ hx', herror⟩
        · cases h

end Tabula
