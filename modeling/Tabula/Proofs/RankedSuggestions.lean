import Tabula.Proofs.SuggestionOrder

/-!
# Which suggestions are made

The suggestions are specified by the positions of the candidates in the pool.  Of two candidates with a score, the
one with the higher score outranks the other; if the scores are equal, the one whose name comes first; if the names are
equal too, the one that comes first in the pool.  A replacement has the rank of its best candidate.  The suggestions
are the replacements in this order, each of them once, up to the limit.

Replacements are compared by any equivalence, and nothing is assumed of the scores.
-/

namespace Tabula.Suggestion

section Ranks

variable {α : Type} (score : Name → Option Float) (pool : List (Candidate α))

/-- Both candidates have scores, and the first one comes before the second one: by a higher score, then by its name,
then by its position. -/
def Outranks (i j : Fin pool.length) : Prop :=
  ∃ s t, score (pool.get i).name = some s ∧ score (pool.get j).name = some t ∧
    (scoreKey t < scoreKey s ∨ scoreKey t = scoreKey s ∧
      ((pool.get i).name < (pool.get j).name ∨ (pool.get i).name = (pool.get j).name ∧ i < j))

/-- The candidate has a score and outranks all others with the same replacement. -/
def IsBest [BEq α] (i : Fin pool.length) : Prop :=
  (score (pool.get i).name).isSome = true ∧ ∀ j, (score (pool.get j).name).isSome = true →
    ((pool.get j).replacement == (pool.get i).replacement) = true → j = i ∨ Outranks score pool i j

/-- The list consists of the first `limit` replacements in the order of their best candidates. -/
structure Ranked [BEq α] (limit : Nat) (result : List α) : Prop where
  /-- No replacement is suggested twice. -/
  distinct : result.Pairwise fun a b => (a == b) = false
  length_le : result.length ≤ limit
  scored : ∀ a ∈ result, ∃ i, (score (pool.get i).name).isSome = true ∧ (pool.get i).replacement = a
  first : ∃ best : List (Fin pool.length), best.Pairwise (Outranks score pool) ∧
    (∀ i, i ∈ best ↔ IsBest score pool i) ∧ result = (best.take limit).map fun i => (pool.get i).replacement
  /-- What outranks a suggestion is suggested. -/
  upward : ∀ i j, Outranks score pool i j → IsBest score pool j →
    result.contains (pool.get j).replacement = true → result.contains (pool.get i).replacement = true
  /-- Below the limit nothing is left out. -/
  complete : result.length < limit → ∀ i, (score (pool.get i).name).isSome = true →
    result.contains (pool.get i).replacement = true

end Ranks

section Order

variable {α : Type} {score : Name → Option Float} {pool : List (Candidate α)} {i j k : Fin pool.length}

theorem Outranks.scored (h : Outranks score pool i j) : (score (pool.get i).name).isSome = true := by
  obtain ⟨s, -, hs, -⟩ := h
  rw [hs]
  rfl

theorem Outranks.trans (h : Outranks score pool i j) (h' : Outranks score pool j k) : Outranks score pool i k := by
  obtain ⟨s, t, hs, ht, h⟩ := h
  obtain ⟨t', u, ht', hu, h'⟩ := h'
  obtain rfl : t = t' := Option.some.inj (ht.symm.trans ht')
  refine ⟨s, u, hs, hu, ?_⟩
  grind

theorem Outranks.asymm (h : Outranks score pool i j) : ¬ Outranks score pool j i := by
  rintro ⟨t', s', ht', hs', h'⟩
  obtain ⟨s, t, hs, ht, h⟩ := h
  obtain rfl : t = t' := Option.some.inj (ht.symm.trans ht')
  obtain rfl : s = s' := Option.some.inj (hs.symm.trans hs')
  grind

end Order

section Firsts

variable {α β : Type} [BEq α] (f : β → α)

/-- The members whose images differ from that of `x`. -/
def without (x : β) (xs : List β) : List β :=
  xs.filter fun y => !(f y == f x)

theorem without_sublist (x : β) (xs : List β) : (without f x xs).Sublist xs :=
  List.filter_sublist

theorem mem_without {x y : β} {xs : List β} : y ∈ without f x xs ↔ y ∈ xs ∧ (f y == f x) = false := by
  simp [without]

/-- The members with no equal image before them. -/
def firsts : List β → List β
  | [] => []
  | x :: xs => x :: firsts (without f x xs)
termination_by xs => xs.length
decreasing_by exact Nat.lt_succ_of_le (without_sublist f x xs).length_le

theorem map_firsts (xs : List β) : (firsts f xs).map f = (xs.map f).eraseDups := by
  fun_induction firsts f xs with
  | case1 => rfl
  | case2 x xs ih =>
      rw [List.map_cons, ih, List.map_cons, List.eraseDups_cons, List.filter_map]
      rfl

theorem firsts_sublist (xs : List β) : (firsts f xs).Sublist xs := by
  fun_induction firsts f xs with
  | case1 => exact .slnil
  | case2 x xs ih => exact .cons_cons x (ih.trans (without_sublist f x xs))

variable {f} [EquivBEq α]

theorem pairwise_firsts (xs : List β) : (firsts f xs).Pairwise fun x y => (f x == f y) = false := by
  fun_induction firsts f xs with
  | case1 => exact .nil
  | case2 x xs ih =>
      refine .cons (fun y hy => ?_) ih
      rw [BEq.comm]
      exact ((mem_without f).1 ((firsts_sublist f _).subset hy)).2

theorem exists_mem_firsts {x : β} {xs : List β} (hx : x ∈ xs) : ∃ y ∈ firsts f xs, (f x == f y) = true := by
  fun_induction firsts f xs with
  | case1 => simp at hx
  | case2 z xs ih =>
      cases heq : f x == f z with
      | true => exact ⟨z, List.mem_cons_self, heq⟩
      | false =>
          have hxs : x ∈ xs := by
            rcases List.mem_cons.1 hx with rfl | hx
            · simp at heq
            · exact hx
          obtain ⟨y, hy, hxy⟩ := ih ((mem_without f).2 ⟨hxs, heq⟩)
          exact ⟨y, List.mem_cons_of_mem _ hy, hxy⟩

/-- In a list that is in order, these are the members that come before all others with an equal image. -/
theorem mem_firsts {R : β → β → Prop} (hasymm : ∀ x y, R x y → ¬ R y x) {x : β} {xs : List β} (h : xs.Pairwise R) :
    x ∈ firsts f xs ↔ x ∈ xs ∧ ∀ y ∈ xs, (f y == f x) = true → y = x ∨ R x y := by
  fun_induction firsts f xs with
  | case1 => simp
  | case2 z xs ih =>
      obtain ⟨hz, hxs⟩ := List.pairwise_cons.1 h
      have ih := ih (hxs.sublist (without_sublist f z xs))
      constructor
      · intro hx
        rcases List.mem_cons.1 hx with rfl | hx
        · exact ⟨List.mem_cons_self, List.forall_mem_cons.2 ⟨fun _ => .inl rfl, fun y hy _ => .inr (hz y hy)⟩⟩
        · obtain ⟨hmem, hfirst⟩ := ih.1 hx
          obtain ⟨hmem, hne⟩ := (mem_without f).1 hmem
          refine ⟨List.mem_cons_of_mem _ hmem, List.forall_mem_cons.2 ⟨fun heq => ?_, fun y hy heq => ?_⟩⟩
          · rw [BEq.comm, hne] at heq
            contradiction
          · -- An image equal to that of `x` differs from that of `z` as well.
            exact hfirst y ((mem_without f).2 ⟨hy, (BEq.congr_left heq).trans hne⟩) heq
      · rintro ⟨hx, hfirst⟩
        obtain ⟨hhead, hfirst⟩ := List.forall_mem_cons.1 hfirst
        rcases List.mem_cons.1 hx with rfl | hx
        · exact List.mem_cons_self
        · cases heq : f z == f x with
          | true =>
              rcases hhead heq with rfl | hlt
              · exact List.mem_cons_self
              · exact absurd hlt (hasymm z x (hz x hx))
          | false =>
              have hmem : x ∈ without f z xs := (mem_without f).2 ⟨hx, BEq.comm.trans heq⟩
              exact List.mem_cons_of_mem _
                (ih.2 ⟨hmem, fun y hy => hfirst y ((without_sublist f z xs).subset hy)⟩)

end Firsts

/-- Sorting does not change the order of members that come in either order. -/
theorem pairwise_mergeSort_stable {β : Type} {le : β → β → Bool} {R S : β → β → Prop}
    (htrans : ∀ x y z, le x y = true → le y z = true → le x z = true) (htotal : ∀ x y, (le x y || le y x) = true)
    {xs : List β} (hxs : xs.Pairwise S)
    (hnot : ∀ x ∈ xs, ∀ y ∈ xs, le x y = false → R y x)
    (hle : ∀ x ∈ xs, ∀ y ∈ xs, le x y = true → S x y → R x y) : (xs.mergeSort le).Pairwise R := by
  induction xs with
  | nil => simp
  | cons x xs ih =>
      obtain ⟨before, after, hsort, hrest, hbefore⟩ := List.mergeSort_cons htrans htotal x xs
      obtain ⟨hx, hxs⟩ := List.pairwise_cons.1 hxs
      have hsorted := List.pairwise_mergeSort htrans htotal (x :: xs)
      rw [hsort] at hsorted
      have hafter : ∀ y ∈ after, le x y = true := (List.pairwise_cons.1 (List.pairwise_append.1 hsorted).2.1).1
      have hmem : ∀ y ∈ before ++ after, y ∈ xs := fun y hy => List.mem_mergeSort.1 (hrest ▸ hy)
      have ih := ih hxs (fun y hy z hz => hnot y (.tail _ hy) z (.tail _ hz))
        (fun y hy z hz => hle y (.tail _ hy) z (.tail _ hz))
      rw [hrest] at ih
      obtain ⟨hleft, hright, hacross⟩ := List.pairwise_append.1 ih
      -- The new member stands behind what it must not come before, and before all the others.
      have hput : ∀ y ∈ before, R y x := fun y hy =>
        hnot x List.mem_cons_self y (.tail _ (hmem y (List.mem_append_left _ hy))) (by simpa using hbefore y hy)
      have hkept : ∀ y ∈ after, R x y := fun y hy =>
        have hy' := hmem y (List.mem_append_right _ hy)
        hle x List.mem_cons_self y (.tail _ hy') (hafter y hy) (hx y hy')
      rw [hsort]
      exact List.pairwise_append.2 ⟨hleft, .cons hkept hright, fun y hy z hz =>
        (List.mem_cons.1 hz).elim (fun heq => heq ▸ hput y hy) (hacross y hy z)⟩

theorem isLE_compare_name {a b : Name} : (compare a b).isLE = true ↔ a ≤ b :=
  Ordering.isLE_iff_ne_gt.trans compare_le_iff_le

section Sorting

variable {α : Type} (score : Name → Option Float) (pool : List (Candidate α))

/-- The positions of the candidates that have scores, with these scores, in the order of the pool. -/
def scoredPositions : List (Float × Fin pool.length) :=
  (List.finRange pool.length).filterMap fun i => (score (pool.get i).name).map fun s => (s, i)

/-- A scored candidate from its position. -/
def candidateAt (x : Float × Fin pool.length) : Float × Candidate α :=
  (x.1, pool.get x.2)

theorem map_candidateAt :
    (scoredPositions score pool).map (candidateAt pool) =
      pool.filterMap fun c => (score c.name).map fun s => (s, c) := by
  conv_rhs => rw [← List.map_get_finRange pool]
  rw [scoredPositions, List.map_filterMap, List.filterMap_map]
  congr
  funext i
  simp [candidateAt, Function.comp_def]

theorem mem_scoredPositions {x : Float × Fin pool.length} :
    x ∈ scoredPositions score pool ↔ score (pool.get x.2).name = some x.1 := by
  obtain ⟨s, i⟩ := x
  simp [scoredPositions]

theorem pairwise_scoredPositions : (scoredPositions score pool).Pairwise fun x y => x.2 < y.2 := by
  refine List.pairwise_filterMap.2 ((List.pairwise_lt_finRange pool.length).imp fun hlt x hx y hy => ?_)
  obtain ⟨_, -, rfl⟩ := Option.map_eq_some_iff.1 hx
  obtain ⟨_, -, rfl⟩ := Option.map_eq_some_iff.1 hy
  exact hlt

/-- Positions are sorted like the candidates there. -/
def positionFirst (x y : Float × Fin pool.length) : Bool :=
  comesFirst (candidateAt pool x) (candidateAt pool y)

theorem positionFirst_trans (x y z : Float × Fin pool.length) :
    positionFirst pool x y = true → positionFirst pool y z = true → positionFirst pool x z = true :=
  comesFirst_trans _ _ _

theorem positionFirst_total (x y : Float × Fin pool.length) :
    (positionFirst pool x y || positionFirst pool y x) = true :=
  comesFirst_total _ _

theorem map_sorted :
    ((scoredPositions score pool).mergeSort (positionFirst pool)).map (candidateAt pool) =
      (pool.filterMap fun c => (score c.name).map fun s => (s, c)).mergeSort comesFirst := by
  rw [← map_candidateAt]
  exact List.map_mergeSort fun _ _ _ _ => rfl

variable {score pool}

/-- A candidate that cannot come before another one is outranked by it. -/
theorem outranks_of_not_positionFirst {x y : Float × Fin pool.length}
    (hx : x ∈ scoredPositions score pool) (hy : y ∈ scoredPositions score pool)
    (h : positionFirst pool x y = false) : Outranks score pool y.2 x.2 := by
  have hnot : ¬ comesFirst (candidateAt pool x) (candidateAt pool y) = true := Bool.not_eq_true _ ▸ h
  rw [comesFirst_iff, isLE_compare_name, candidateAt, candidateAt] at hnot
  rw [mem_scoredPositions] at hx hy
  refine ⟨y.1, x.1, hy, hx, ?_⟩
  grind

theorem outranks_of_positionFirst {x y : Float × Fin pool.length}
    (hx : x ∈ scoredPositions score pool) (hy : y ∈ scoredPositions score pool)
    (h : positionFirst pool x y = true) (hlt : x.2 < y.2) : Outranks score pool x.2 y.2 := by
  rw [positionFirst, comesFirst_iff, isLE_compare_name, candidateAt, candidateAt] at h
  rw [mem_scoredPositions] at hx hy
  refine ⟨x.1, y.1, hx, hy, ?_⟩
  grind

end Sorting

section Ranking

variable {α : Type} (score : Name → Option Float) (pool : List (Candidate α))

/-- The positions of the candidates that have scores, the best candidate first. -/
def order : List (Fin pool.length) :=
  ((scoredPositions score pool).mergeSort (positionFirst pool)).map Prod.snd

theorem pairwise_order : (order score pool).Pairwise (Outranks score pool) := by
  refine List.pairwise_map.2 (pairwise_mergeSort_stable (positionFirst_trans pool) (positionFirst_total pool)
    (pairwise_scoredPositions score pool) ?_ ?_)
  · exact fun x hx y hy h => outranks_of_not_positionFirst hx hy h
  · exact fun x hx y hy h hlt => outranks_of_positionFirst hx hy h hlt

theorem mem_order {i : Fin pool.length} : i ∈ order score pool ↔ (score (pool.get i).name).isSome = true := by
  simp [order, mem_scoredPositions, Option.isSome_iff_exists]

variable [BEq α]

/-- The best candidates of all replacements. -/
def bests : List (Fin pool.length) :=
  firsts (fun i => (pool.get i).replacement) (order score pool)

theorem rankBy_eq (limit : Nat) :
    rankBy score limit pool = ((bests score pool).take limit).map fun i => (pool.get i).replacement := by
  rw [rankBy, ← map_sorted, List.map_map, bests, List.map_take, map_firsts, order, List.map_map]
  rfl

theorem pairwise_bests : (bests score pool).Pairwise (Outranks score pool) :=
  (pairwise_order score pool).sublist (firsts_sublist _ _)

variable {score pool} {i j : Fin pool.length}

theorem mem_take_bests {limit : Nat} (hi : i ∈ bests score pool) (hj : j ∈ (bests score pool).take limit)
    (h : Outranks score pool i j) : i ∈ (bests score pool).take limit := by
  have hpair := pairwise_bests score pool
  rw [← List.take_append_drop limit (bests score pool)] at hi hpair
  rcases List.mem_append.1 hi with hi | hi
  · exact hi
  · exact absurd ((List.pairwise_append.1 hpair).2.2 j hj i hi) h.asymm

theorem contains_rankBy {limit : Nat} {a : α} :
    (rankBy score limit pool).contains a = true ↔
      ∃ j ∈ (bests score pool).take limit, (a == (pool.get j).replacement) = true := by
  simp [rankBy_eq, List.contains_eq_any_beq, -List.map_take]

theorem rankBy_isPrefix (score : Name → Option Float) (pool : List (Candidate α)) (limit more : Nat) :
    rankBy score limit pool <+: rankBy score (limit + more) pool :=
  List.take_prefix_take_left (Nat.le_add_right limit more)

variable [EquivBEq α]

theorem mem_bests : i ∈ bests score pool ↔ IsBest score pool i := by
  rw [bests, mem_firsts (fun _ _ => Outranks.asymm) (pairwise_order score pool)]
  simp only [mem_order, IsBest]

theorem eq_of_mem_bests (hi : i ∈ bests score pool) (hj : j ∈ bests score pool)
    (heq : ((pool.get i).replacement == (pool.get j).replacement) = true) : i = j := by
  rw [mem_bests] at hi hj
  rcases hj.2 i hi.1 heq with rfl | hlt
  · rfl
  · rcases hi.2 j hj.1 (BEq.symm heq) with rfl | hlt'
    · rfl
    · exact absurd hlt hlt'.asymm

/-- Every replacement that has a score has a best candidate. -/
theorem exists_mem_bests (h : (score (pool.get i).name).isSome = true) :
    ∃ j ∈ bests score pool, ((pool.get i).replacement == (pool.get j).replacement) = true :=
  exists_mem_firsts (f := fun i => (pool.get i).replacement) ((mem_order score pool).2 h)

theorem ranked_rankBy (score : Name → Option Float) (pool : List (Candidate α)) (limit : Nat) :
    Ranked score pool limit (rankBy score limit pool) where
  distinct := by
    rw [rankBy_eq]
    exact List.pairwise_map.2 ((pairwise_firsts _).sublist (List.take_sublist _ _))
  length_le := List.length_take_le _ _
  scored a ha := by
    rw [rankBy_eq] at ha
    obtain ⟨i, hi, rfl⟩ := List.mem_map.1 ha
    exact ⟨i, (mem_bests.1 (List.mem_of_mem_take hi)).1, rfl⟩
  first := ⟨bests score pool, pairwise_bests score pool, fun _ => mem_bests, rankBy_eq score pool limit⟩
  upward i j h hj hcontains := by
    obtain ⟨m, hm, heq⟩ := contains_rankBy.1 hcontains
    obtain rfl : j = m := eq_of_mem_bests (mem_bests.2 hj) (List.mem_of_mem_take hm) heq
    have hscored : (score (pool.get i).name).isSome = true := h.scored
    -- The best candidate for the replacement of `i` outranks `j` too, and so it is not cut off.
    obtain ⟨k, hk, heq⟩ := exists_mem_bests hscored
    refine contains_rankBy.2 ⟨k, mem_take_bests hk hm ?_, heq⟩
    rcases (mem_bests.1 hk).2 i hscored heq with rfl | hki
    · exact h
    · exact hki.trans h
  complete hlt i hi := by
    rw [rankBy_eq, List.length_map, List.length_take] at hlt
    obtain ⟨k, hk, heq⟩ := exists_mem_bests hi
    refine contains_rankBy.2 ⟨k, ?_, heq⟩
    rwa [List.take_of_length_le (by omega)]

end Ranking

/-- Whatever the scores are, the suggestions are the first replacements in the order of their ranks, and a higher limit
adds suggestions at the end only. -/
theorem rankBy_ranked {α : Type} [BEq α] [EquivBEq α] (pool : List (Candidate α)) :
    (∀ (score : Name → Option Float) (limit : Nat), Ranked score pool limit (rankBy score limit pool) ∧
      ∀ more, rankBy score limit pool <+: rankBy score (limit + more) pool) ∧
    ∀ (score : Score) (settings : Settings) (input : Name),
      Ranked (score settings.minSimilarity input) pool settings.maxSuggestions (rank score settings input pool) ∧
      ∀ more, rank score settings input pool <+:
        rank score { settings with maxSuggestions := settings.maxSuggestions + more } input pool :=
  ⟨fun score limit => ⟨ranked_rankBy score pool limit, rankBy_isPrefix score pool limit⟩, fun score settings input =>
    ⟨ranked_rankBy (score settings.minSimilarity input) pool settings.maxSuggestions,
      rankBy_isPrefix (score settings.minSimilarity input) pool settings.maxSuggestions⟩⟩

/-- Two names stand for the same replacement, three candidates have the same score, and one has none.  A replacement is
ranked by the better of its names, and of the others the one with the smaller name is not cut off. -/
theorem rankBy_ranked_of_aliases :
    let pool : List (Candidate Nat) := [⟨"double", 1⟩, ⟨"int", 2⟩, ⟨"bool", 3⟩, ⟨"char", 4⟩, ⟨"real", 1⟩]
    let score : Name → Option Float := fun n => if n = "char" then none else some (if n = "real" then 2 else 1)
    EquivBEq Nat ∧ rankBy score 2 pool = [1, 3] ∧ Ranked score pool 2 [1, 3] ∧
      [1, 3] <+: rankBy score 5 pool := by
  intro pool score
  have h : rankBy score 2 pool = [1, 3] := by
    simp +decide [rankBy, pool, score, List.mergeSort, List.eraseDups_cons]
  have hranked := (rankBy_ranked pool).1 score 2
  rw [h] at hranked
  exact ⟨inferInstance, h, hranked.1, hranked.2 3⟩

end Tabula.Suggestion
