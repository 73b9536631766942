import Tabula.Ascending
import Tabula.Proofs.Lists

/-!
# Keys of ascending lists

What a lookup says about the keys of a list, and which keys an insertion leaves.  In an ascending list every
key occurs once, so the list is determined by the elements it holds: building it again from its own elements
changes nothing.
-/

namespace Tabula

namespace Ascending

variable {α κ : Type} [Ord κ] {key : α → κ} {k : κ} {a x : α} {xs : List α}

instance : Decidable (Ascending key xs) :=
  inferInstanceAs (Decidable (xs.Pairwise _))

section Lookup

variable [Std.LawfulEqOrd κ]

theorem find?_eq_none_iff : find? key k xs = none ↔ k ∉ xs.map key := by
  induction xs with
  | nil => simp [find?]
  | cons a xs ih =>
      simp only [find?, List.map_cons, List.mem_cons, not_or, ← ih]
      split
      · rename_i heq
        simp [Std.LawfulEqOrd.eq_of_compare heq]
      · rename_i hne
        have hk : k ≠ key a := by
          rintro rfl
          exact hne Std.ReflOrd.compare_self
        simp [hk]

/-- A lookup finds an element of the list with the key it asks for. -/
theorem of_find?_eq_some (h : find? key k xs = some a) : a ∈ xs ∧ key a = k := by
  induction xs with
  | nil => simp [find?] at h
  | cons b xs ih =>
      simp only [find?] at h
      split at h
      · rename_i hkey
        cases h
        exact ⟨List.mem_cons_self, (Std.LawfulEqOrd.eq_of_compare hkey).symm⟩
      · exact ⟨List.mem_cons_of_mem _ (ih h).1, (ih h).2⟩

/-- In an ascending list every element is found under its key. -/
theorem find?_of_mem (hxs : Ascending key xs) (h : a ∈ xs) : find? key (key a) xs = some a := by
  induction xs with
  | nil => cases h
  | cons b xs ih =>
      obtain ⟨hfirst, hrest⟩ := List.pairwise_cons.1 hxs
      simp only [find?]
      rcases List.mem_cons.1 h with rfl | h
      · simp
      · have hne : compare (key a) (key b) ≠ .eq := by
          intro heq
          have hlt := hfirst a h
          rw [Std.LawfulEqOrd.eq_of_compare heq] at hlt
          simp at hlt
        rw [if_neg hne]
        exact ih hrest h

omit [Std.LawfulEqOrd κ] in
/-- Lookups in lists whose members correspond and have the same keys find members that correspond. -/
theorem find?_of_forall₂ {β : Type} {key' : β → κ} {R : α → β → Prop} {ys : List β} (h : List.Forall₂ R xs ys)
    (hR : ∀ x y, R x y → key x = key' y) : Option.Rel R (find? key k xs) (find? key' k ys) := by
  induction h with
  | nil => exact .none
  | cons hxy _ ih =>
      rw [find?, find?, hR _ _ hxy]
      split
      · exact .some hxy
      · exact ih

/-- An insertion adds the key of its element and keeps all others. -/
theorem mem_map_insert : k ∈ (insert key x xs).map key ↔ k = key x ∨ k ∈ xs.map key := by
  induction xs with
  | nil => simp [insert]
  | cons b xs ih =>
      simp only [insert]
      split
      · simp only [List.map_cons, List.mem_cons]
      · rename_i heq
        simp only [List.map_cons, List.mem_cons, Std.LawfulEqOrd.eq_of_compare heq, or_self_left]
      · simp only [List.map_cons, List.mem_cons, ih]
        exact or_left_comm

end Lookup

section Rebuild

/-- Putting elements in order brings in no others. -/
theorem mem_of_mem_ofList (h : a ∈ ofList key xs) : a ∈ xs := by
  have hfold : ∀ ys acc : List α, a ∈ ys.foldl (fun acc y => insert key y acc) acc → a ∈ acc ∨ a ∈ ys := by
    intro ys
    induction ys with
    | nil => exact fun acc h => .inl h
    | cons y ys ih =>
        intro acc h
        rw [List.mem_cons]
        rcases ih _ h with hmem | hmem
        · rcases mem_insert hmem with rfl | hmem
          · exact .inr (.inl rfl)
          · exact .inl hmem
        · exact .inr (.inr hmem)
  simpa using hfold xs [] h

variable [Std.TransOrd κ]

/-- An element whose key is greater than all others goes to the end. -/
theorem insert_eq_append (h : ∀ b ∈ xs, compare (key b) (key x) = .lt) : insert key x xs = xs ++ [x] := by
  induction xs with
  | nil => rfl
  | cons b xs ih =>
      have hgt : compare (key x) (key b) = .gt := Std.OrientedCmp.gt_of_lt (h b List.mem_cons_self)
      simp only [insert, hgt, List.cons_append]
      rw [ih fun c hc => h c (List.mem_cons_of_mem _ hc)]

theorem foldl_insert_eq_append {ys : List α} (h : Ascending key (xs ++ ys)) :
    ys.foldl (fun acc y => insert key y acc) xs = xs ++ ys := by
  induction ys generalizing xs with
  | nil => simp
  | cons y ys ih =>
      obtain ⟨-, -, hcross⟩ := List.pairwise_append.1 h
      have hinsert := insert_eq_append fun b hb => hcross b hb y List.mem_cons_self
      rw [List.foldl_cons, hinsert, ih (by simpa using h)]
      simp

/-- An ascending list is built again from its own elements. -/
theorem ofList_eq_self (h : Ascending key xs) : ofList key xs = xs :=
  foldl_insert_eq_append h

end Rebuild

/-- A list in step with an ascending one is ascending, if it has the same keys or keys in the same order. -/
theorem of_forall₂ {β κ' : Type} [Ord κ'] {key' : β → κ'} {R : α → β → Prop} {ys : List β}
    (h : List.Forall₂ R xs ys) (hxs : Ascending key xs)
    (hR : ∀ x x' y y', R x y → R x' y' → compare (key x) (key x') = .lt → compare (key' y) (key' y') = .lt) :
    Ascending key' ys := by
  induction h with
  | nil => exact List.Pairwise.nil
  | @cons x y xs ys hxy hrest ih =>
      obtain ⟨hfirst, hxs⟩ := List.pairwise_cons.1 hxs
      refine List.pairwise_cons.2 ⟨fun y' hy' => ?_, ih hxs⟩
      obtain ⟨x', hx', hxy'⟩ := exists_of_forall₂ hrest y' hy'
      exact hR x x' y y' hxy hxy' (hfirst x' hx')

section Correspondence

variable [Std.LawfulEqOrd κ] [Std.OrientedOrd κ]

omit [Std.OrientedOrd κ] in
theorem key_ne_of_mem (h : Ascending key (x :: xs)) (ha : a ∈ xs) : key a ≠ key x := by
  intro heq
  have hlt := (List.pairwise_cons.1 h).1 a ha
  rw [heq] at hlt
  simp at hlt

theorem not_lt_head (h : Ascending key (x :: xs)) (ha : a ∈ x :: xs) : compare (key a) (key x) ≠ .lt := by
  intro hlt
  rcases List.mem_cons.1 ha with rfl | ha
  · simp at hlt
  · exact Std.OrientedCmp.not_lt_of_lt hlt ((List.pairwise_cons.1 h).1 a ha)

/-- Ascending lists with the same keys go in step. -/
theorem forall₂_of_keys {β : Type} {key' : β → κ} {ys : List β} {R : α → β → Prop} (hxs : Ascending key xs)
    (hys : Ascending key' ys) (hright : ∀ y ∈ ys, ∃ x ∈ xs, key x = key' y ∧ R x y)
    (hleft : ∀ x ∈ xs, ∃ y ∈ ys, key' y = key x) : List.Forall₂ R xs ys := by
  induction xs generalizing ys with
  | nil =>
      cases ys with
      | nil => exact .nil
      | cons y ys =>
          obtain ⟨x, hx, -⟩ := hright y List.mem_cons_self
          cases hx
  | cons x xs ih =>
      cases ys with
      | nil =>
          obtain ⟨y, hy, -⟩ := hleft x List.mem_cons_self
          cases hy
      | cons y ys =>
          obtain ⟨y', hy', hkey'⟩ := hleft x List.mem_cons_self
          obtain ⟨x', hx', hkey, hR⟩ := hright y List.mem_cons_self
          have heq : key x = key' y := by
            cases hcompare : compare (key x) (key' y) with
            | lt => exact absurd (hkey' ▸ hcompare) (not_lt_head hys hy')
            | eq => exact Std.LawfulEqOrd.eq_of_compare hcompare
            | gt => exact absurd (hkey ▸ Std.OrientedCmp.lt_of_gt hcompare) (not_lt_head hxs hx')
          have hhead : R x y := by
            rcases List.mem_cons.1 hx' with rfl | hx'
            · exact hR
            · exact absurd (hkey.trans heq.symm) (key_ne_of_mem hxs hx')
          -- A key of one tail is not the key of the head of the other list.
          refine .cons hhead (ih hxs.of_cons hys.of_cons (fun z hz => ?_) fun z hz => ?_)
          · obtain ⟨w, hw, hz', hRw⟩ := hright z (List.mem_cons_of_mem _ hz)
            rcases List.mem_cons.1 hw with rfl | hw
            · exact absurd (hz'.symm.trans heq) (key_ne_of_mem hys hz)
            · exact ⟨w, hw, hz', hRw⟩
          · obtain ⟨w, hw, hz'⟩ := hleft z (List.mem_cons_of_mem _ hz)
            rcases List.mem_cons.1 hw with rfl | hw
            · exact absurd (hz'.symm.trans heq.symm) (key_ne_of_mem hxs hz)
            · exact ⟨w, hw, hz'⟩

omit [Std.OrientedOrd κ] in
theorem find?_cons_of_ne (h : k ≠ key x) : find? key k (x :: xs) = find? key k xs := by
  rw [find?, if_neg fun heq => h (Std.LawfulEqOrd.eq_of_compare heq)]

omit [Std.OrientedOrd κ] in
theorem find?_eq_none_of_forall_ne (h : ∀ z ∈ xs, key z ≠ k) : find? key k xs = none := by
  refine find?_eq_none_iff.2 fun hmem => ?_
  obtain ⟨z, hz, heq⟩ := List.mem_map.1 hmem
  exact h z hz heq

omit [Std.OrientedOrd κ] in
/-- A key that is not looked for can be left out. -/
theorem filterMap_find?_cons {β γ : Type} {key' : β → κ} {zs : List β} (g : α → β → γ)
    (h : ∀ z ∈ zs, key' z ≠ key x) :
    zs.filterMap (fun z => (find? key (key' z) (x :: xs)).map fun x => g x z) =
      zs.filterMap fun z => (find? key (key' z) xs).map fun x => g x z :=
  List.filterMap_congr fun z hz => by rw [find?_cons_of_ne (h z hz)]

/-- Going through one of two ascending lists and looking for the same keys in the other meets the same pairs, in the
same order, whichever list it is. -/
theorem filterMap_find?_swap {β γ : Type} {key' : β → κ} {ys : List β} (g : α → β → γ) (hxs : Ascending key xs)
    (hys : Ascending key' ys) :
    ys.filterMap (fun y => (find? key (key' y) xs).map fun x => g x y) =
      xs.filterMap fun x => (find? key' (key x) ys).map fun y => g x y := by
  induction xs generalizing ys with
  | nil => simp [find?]
  | cons x xs ih =>
      induction ys with
      | nil => simp [find?]
      | cons y ys ihys =>
          -- A head whose key does not occur in the other list is passed over there.
          cases hcompare : compare (key x) (key' y) with
          | lt =>
              have hne : ∀ z ∈ y :: ys, key' z ≠ key x := fun z hz heq =>
                not_lt_head hys hz (heq.symm ▸ hcompare)
              rw [filterMap_find?_cons g hne, ih hxs.of_cons hys, List.filterMap_cons, find?_eq_none_of_forall_ne hne]
              rfl
          | gt =>
              have hne : ∀ z ∈ x :: xs, key z ≠ key' y := fun z hz heq =>
                not_lt_head hxs hz (heq.symm ▸ Std.OrientedCmp.lt_of_gt hcompare)
              rw [filterMap_find?_cons (fun y x => g x y) hne, ← ihys hys.of_cons, List.filterMap_cons,
                find?_eq_none_of_forall_ne hne]
              rfl
          | eq =>
              have heq := Std.LawfulEqOrd.eq_of_compare hcompare
              have hx : find? key (key' y) (x :: xs) = some x := heq ▸ find?_of_mem hxs List.mem_cons_self
              have hy : find? key' (key x) (y :: ys) = some y := heq ▸ find?_of_mem hys List.mem_cons_self
              have hright : ∀ z ∈ ys, key' z ≠ key x := fun z hz => heq ▸ key_ne_of_mem hys hz
              have hleft : ∀ z ∈ xs, key z ≠ key' y := fun z hz => heq ▸ key_ne_of_mem hxs hz
              rw [List.filterMap_cons, List.filterMap_cons, hx, hy, filterMap_find?_cons g hright,
                filterMap_find?_cons (fun y x => g x y) hleft, ih hxs.of_cons hys.of_cons]
              rfl

end Correspondence

end Ascending

end Tabula
