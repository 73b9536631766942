/-!
# Lists in ascending order of a key

Record fields and variable bindings are kept as lists whose keys rise strictly, so that each key
occurs once and two lists with the same contents are the same list.  `Ascending.insert` puts an
element in its place and lets it replace an element with the same key.
-/

namespace Tabula

variable {α κ : Type} [Ord κ]

/-- The keys of the list rise strictly from left to right. -/
def Ascending (key : α → κ) (xs : List α) : Prop :=
  xs.Pairwise fun a b => compare (key a) (key b) = .lt

namespace Ascending

/-- Put `x` where its key belongs.  An element with the same key gives way to `x`. -/
def insert (key : α → κ) (x : α) : List α → List α
  | [] => [x]
  | a :: rest =>
      match compare (key x) (key a) with
      | .lt => x :: a :: rest
      | .eq => x :: rest
      | .gt => a :: insert key x rest

/-- The elements in order of their keys; of two elements with the same key the later one stays. -/
def ofList (key : α → κ) (xs : List α) : List α :=
  xs.foldl (fun acc x => insert key x acc) []

/-- The first element with this key. -/
def find? (key : α → κ) (k : κ) : List α → Option α
  | [] => none
  | a :: rest => if compare k (key a) = .eq then some a else find? key k rest

theorem nil (key : α → κ) : Ascending key [] :=
  List.Pairwise.nil

/-- Insertion brings in nothing but the new element. -/
theorem mem_insert {key : α → κ} {x y : α} {xs : List α} (h : y ∈ insert key x xs) :
    y = x ∨ y ∈ xs := by
  induction xs with
  | nil => simpa [insert] using h
  | cons a rest ih =>
      simp only [insert] at h
      split at h
      · simpa using h
      · rcases List.mem_cons.1 h with h | h
        · exact .inl h
        · exact .inr (List.mem_cons_of_mem _ h)
      · rcases List.mem_cons.1 h with h | h
        · exact .inr (h ▸ List.mem_cons_self)
        · rcases ih h with h | h
          · exact .inl h
          · exact .inr (List.mem_cons_of_mem _ h)

/-- Insertion keeps the order. -/
theorem insert_ascending [Std.TransOrd κ] (key : α → κ) (x : α) {xs : List α}
    (h : Ascending key xs) : Ascending key (insert key x xs) := by
  induction xs with
  | nil => exact List.pairwise_singleton _ _
  | cons a rest ih =>
      obtain ⟨hfirst, hrest⟩ := List.pairwise_cons.1 h
      simp only [insert]
      split
      · rename_i hlt
        refine List.pairwise_cons.2 ⟨fun b hb => ?_, h⟩
        rcases List.mem_cons.1 hb with rfl | hb
        · exact hlt
        · exact Std.TransCmp.lt_trans hlt (hfirst b hb)
      · rename_i heq
        refine List.pairwise_cons.2 ⟨fun b hb => ?_, hrest⟩
        exact Std.TransCmp.lt_of_eq_of_lt heq (hfirst b hb)
      · rename_i hgt
        refine List.pairwise_cons.2 ⟨fun b hb => ?_, ih hrest⟩
        rcases mem_insert hb with rfl | hb
        · exact Std.OrientedCmp.lt_of_gt hgt
        · exact hfirst b hb

/-- A list built by insertions is in order. -/
theorem ofList_ascending [Std.TransOrd κ] (key : α → κ) (xs : List α) :
    Ascending key (ofList key xs) := by
  suffices h : ∀ acc, Ascending key acc →
      Ascending key (xs.foldl (fun acc x => insert key x acc) acc) from h [] (nil key)
  induction xs with
  | nil => exact fun _ h => h
  | cons x xs ih => exact fun acc h => ih _ (insert_ascending key x h)

end Ascending

end Tabula
