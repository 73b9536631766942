import Mathlib.Data.List.Nodup
import Mathlib.Data.List.Sort
import Mathlib.Data.String.Basic
import Tabula.Suggestion.Ranking

/-!
# The order of suggestions

Candidates are sorted by their scores and then by their names.  Candidates of one name are left in the order in which
they came, so the order of a pool can be seen in the suggestions only where two candidates share a name.  Nothing is
assumed of the scores: any function of the names will do.

What comes in front of the pool may share names with it and with itself.
-/

namespace Tabula.Suggestion

variable {α : Type} {a b : Float × Candidate α}

theorem comesFirst_iff :
    comesFirst a b = true ↔
      scoreKey b.1 < scoreKey a.1 ∨ scoreKey b.1 = scoreKey a.1 ∧ (compare a.2.name b.2.name).isLE = true := by
  unfold comesFirst
  split
  · rename_i hlt
    exact iff_of_true rfl (.inl (compare_lt_iff_lt.1 hlt))
  · rename_i heq
    have heq := compare_eq_iff_eq.1 heq
    simp [heq]
  · rename_i hgt
    have hgt := compare_gt_iff_gt.1 hgt
    refine iff_of_false nofun ?_
    omega

theorem comesFirst_trans (a b c : Float × Candidate α) (hab : comesFirst a b = true) (hbc : comesFirst b c = true) :
    comesFirst a c = true := by
  rw [comesFirst_iff] at hab hbc ⊢
  rcases hab with hab | ⟨hab, hnames⟩
  · exact .inl (by omega)
  · rcases hbc with hbc | ⟨hbc, hnames'⟩
    · exact .inl (by omega)
    · exact .inr ⟨by omega, Std.TransOrd.isLE_trans hnames hnames'⟩

theorem comesFirst_total (a b : Float × Candidate α) : (comesFirst a b || comesFirst b a) = true := by
  rw [Bool.or_eq_true, comesFirst_iff, comesFirst_iff]
  rcases lt_trichotomy (scoreKey a.1) (scoreKey b.1) with hlt | heq | hgt
  · exact .inr (.inl hlt)
  · cases hnames : compare a.2.name b.2.name with
    | lt => exact .inl (.inr ⟨heq.symm, rfl⟩)
    | eq => exact .inl (.inr ⟨heq.symm, rfl⟩)
    | gt => exact .inr (.inr ⟨heq, by rw [Std.OrientedOrd.eq_swap, hnames]; rfl⟩)
  · exact .inl (.inl hgt)

/-- Only candidates of one name can come in either order. -/
theorem name_eq_of_comesFirst (hab : comesFirst a b = true) (hba : comesFirst b a = true) : a.2.name = b.2.name := by
  rw [comesFirst_iff] at hab hba
  have hle : (compare a.2.name b.2.name).isLE = true := by
    rcases hab with hab | ⟨-, hab⟩
    · omega
    · exact hab
  have hge : (compare b.2.name a.2.name).isLE = true := by
    rcases hba with hba | ⟨-, hba⟩
    · omega
    · exact hba
  exact Std.LawfulEqOrd.eq_of_compare (Std.OrientedCmp.isLE_antisymm hle hge)

theorem pairwise_sorted (xs : List (Float × Candidate α)) :
    (xs.mergeSort comesFirst).Pairwise fun a b => comesFirst a b = true :=
  List.pairwise_mergeSort comesFirst_trans comesFirst_total xs

/-- A candidate in front of the others is put before all that do not come before it. -/
theorem sort_cons (a : Float × Candidate α) (xs : List (Float × Candidate α)) :
    (a :: xs).mergeSort comesFirst =
      (xs.mergeSort comesFirst).orderedInsert (fun a b => comesFirst a b = true) a := by
  obtain ⟨before, after, hsort, hrest, hbefore⟩ :=
    List.mergeSort_cons comesFirst_trans comesFirst_total a xs
  have hsorted := pairwise_sorted (a :: xs)
  rw [hsort] at hsorted
  have hafter : ∀ b ∈ after, comesFirst a b = true :=
    (List.pairwise_cons.1 (List.pairwise_append.1 hsorted).2.1).1
  -- So the place of `a` is where the first candidate stands that it comes before.
  rw [hsort, hrest, List.orderedInsert_eq_take_drop,
    List.takeWhile_append_of_pos (by simpa using hbefore), List.dropWhile_append_of_pos (by simpa using hbefore)]
  cases after with
  | nil => simp
  | cons b after => simp [hafter b List.mem_cons_self]

/-- How the candidates behind are sorted among themselves is all that matters of them. -/
theorem sort_append_congr (front : List (Float × Candidate α)) {xs ys : List (Float × Candidate α)}
    (h : xs.mergeSort comesFirst = ys.mergeSort comesFirst) :
    (front ++ xs).mergeSort comesFirst = (front ++ ys).mergeSort comesFirst := by
  induction front with
  | nil => exact h
  | cons a front ih => rw [List.cons_append, List.cons_append, sort_cons, sort_cons, ih]

/-- Candidates of different names are sorted in one way only. -/
theorem sort_perm {xs ys : List (Float × Candidate α)} (h : xs.Perm ys)
    (hnames : (xs.map fun a => a.2.name).Nodup) : xs.mergeSort comesFirst = ys.mergeSort comesFirst := by
  have hperm : (xs.mergeSort comesFirst).Perm (ys.mergeSort comesFirst) :=
    (List.mergeSort_perm xs _).trans (h.trans (List.mergeSort_perm ys _).symm)
  refine hperm.eq_of_pairwise (fun a b ha hb hab hba => ?_) (pairwise_sorted xs) (pairwise_sorted ys)
  rw [List.mem_mergeSort] at ha hb
  exact List.inj_on_of_nodup_map hnames ha (h.mem_iff.2 hb) (name_eq_of_comesFirst hab hba)

/-- The order of candidates with different names has no influence on the suggestions, whatever the scores are and
whichever candidates come before them. -/
theorem rankBy_perm [BEq α] (score : Name → Option Float) (limit : Nat) (front : List (Candidate α))
    {xs ys : List (Candidate α)} (h : xs.Perm ys) (hnames : (xs.map Candidate.name).Nodup) :
    rankBy score limit (front ++ xs) = rankBy score limit (front ++ ys) := by
  have hscored : ((xs.filterMap fun c => (score c.name).map fun s => (s, c)).map fun a => a.2.name).Nodup := by
    refine List.pairwise_map.2 (List.pairwise_filterMap.2 ?_)
    refine (List.pairwise_map.1 hnames).imp fun hne x hx y hy => ?_
    obtain ⟨_, -, rfl⟩ := Option.map_eq_some_iff.1 hx
    obtain ⟨_, -, rfl⟩ := Option.map_eq_some_iff.1 hy
    exact hne
  simp only [rankBy, List.filterMap_append, sort_append_congr _ (sort_perm (h.filterMap _) hscored)]

end Tabula.Suggestion
