import Tabula.Product

/-!
# The atoms of a product

Which atoms a product can have that was made from others.  A factor can cancel, so these are inclusions only.
-/

namespace Tabula

namespace Product

variable {α : Type} [Ord α] {u v w : Product α} {p : Exponent} {a : α}

/-- The atoms of a product. -/
def atoms (u : Product α) : List α :=
  u.factors.map Prod.fst

theorem mem_atoms_of_mem {f : α × Exponent} (h : f ∈ u.factors) : f.1 ∈ u.atoms :=
  List.mem_map_of_mem h

theorem mem_atoms_raise (h : a ∈ (u.raise p).atoms) : a ∈ u.atoms := by
  obtain ⟨f, hf, rfl⟩ := List.mem_map.1 h
  obtain ⟨g, hg, hgf⟩ := List.mem_filterMap.1 hf
  simp only [raiseFactor] at hgf
  split at hgf
  · cases hgf
  · cases hgf
    exact mem_atoms_of_mem (f := g) hg

theorem mem_atoms_of_raise? (h : u.raise? p = some w) (ha : a ∈ w.atoms) : a ∈ u.atoms := by
  unfold raise? at h
  split at h
  · cases h
    exact mem_atoms_raise ha
  · cases h

variable [Std.TransOrd α]

theorem mem_atoms_set {b : α} (h : a ∈ (u.set b p).atoms) : a = b ∨ a ∈ u.atoms := by
  obtain ⟨f, hf, rfl⟩ := List.mem_map.1 h
  rcases mem_setIn hf with hf | ⟨-, -, hf | ⟨r, hr, -⟩⟩
  · exact .inr (mem_atoms_of_mem hf)
  · exact .inl hf
  · exact .inr (mem_atoms_of_mem (f := (f.1, r)) hr)

/-- Multiplying one factor after the other brings in only their atoms. -/
theorem mem_atoms_foldl {fs : List (α × Exponent)}
    (h : a ∈ (fs.foldl (fun w f => w.addPower f.1 f.2) u).atoms) : a ∈ u.atoms ∨ a ∈ fs.map Prod.fst := by
  induction fs generalizing u with
  | nil => exact .inl h
  | cons f fs ih =>
      rw [List.map_cons, List.mem_cons]
      rcases ih h with hmem | hmem
      · rcases mem_atoms_set hmem with rfl | hmem
        · exact .inr (.inl rfl)
        · exact .inl hmem
      · exact .inr (.inr hmem)

/-- The same for a step that can fail and otherwise writes the power of one atom. -/
theorem mem_atoms_of_foldlM {step : Product α → α × Exponent → Option (Product α)}
    (hstep : ∀ u f w, step u f = some w → ∃ p, w = u.set f.1 p) {fs : List (α × Exponent)}
    (h : fs.foldlM step u = some w) (ha : a ∈ w.atoms) : a ∈ u.atoms ∨ a ∈ fs.map Prod.fst := by
  induction fs generalizing u with
  | nil =>
      cases h
      exact .inl ha
  | cons f fs ih =>
      rw [List.foldlM_cons] at h
      obtain ⟨u', hu', hrest⟩ := Option.bind_eq_some_iff.1 h
      obtain ⟨p, rfl⟩ := hstep u f u' hu'
      rw [List.map_cons, List.mem_cons]
      rcases ih hrest with hmem | hmem
      · rcases mem_atoms_set hmem with rfl | hmem
        · exact .inr (.inl rfl)
        · exact .inl hmem
      · exact .inr (.inr hmem)

theorem mem_atoms_times (h : a ∈ (u.times v).atoms) : a ∈ u.atoms ∨ a ∈ v.atoms :=
  mem_atoms_foldl h

theorem mem_atoms_of_times? (h : u.times? v = some w) (ha : a ∈ w.atoms) : a ∈ u.atoms ∨ a ∈ v.atoms := by
  refine mem_atoms_of_foldlM (fun u f w hw => ?_) h ha
  obtain ⟨p, -, rfl⟩ := Option.map_eq_some_iff.1 hw
  exact ⟨p, rfl⟩

theorem mem_atoms_of_divide? (h : u.divide? v = some w) (ha : a ∈ w.atoms) : a ∈ u.atoms ∨ a ∈ v.atoms := by
  refine mem_atoms_of_foldlM (fun u f w hw => ?_) h ha
  obtain ⟨p, -, rfl⟩ := Option.map_eq_some_iff.1 hw
  exact ⟨p, rfl⟩

theorem mem_atoms_of_divideByInverse? (h : u.divideByInverse? v = some w) (ha : a ∈ w.atoms) :
    a ∈ u.atoms ∨ a ∈ v.atoms := by
  obtain ⟨v', hv', h⟩ := Option.bind_eq_some_iff.1 h
  exact (mem_atoms_of_times? h ha).imp_right fun hmem => mem_atoms_of_raise? hv' hmem

theorem mem_atoms_ofFactors {fs : List (α × Exponent)} (h : a ∈ (ofFactors fs).atoms) :
    a ∈ fs.map Prod.fst := by
  rcases mem_atoms_foldl h with hmem | hmem
  · cases hmem
  · exact hmem

theorem mem_atoms_ofPowers {us : List (Product α × Exponent)} (h : a ∈ (ofPowers us).atoms) :
    ∃ f ∈ us, a ∈ f.1.atoms := by
  have hfold : ∀ (us : List (Product α × Exponent)) (u : Product α),
      a ∈ (us.foldl (fun w f => w.times (f.1.raise f.2)) u).atoms →
        a ∈ u.atoms ∨ ∃ f ∈ us, a ∈ f.1.atoms := by
    intro us
    induction us with
    | nil => exact fun u h => .inl h
    | cons f us ih =>
        intro u h
        rcases ih _ h with hmem | ⟨g, hg, hmem⟩
        · rcases mem_atoms_times hmem with hmem | hmem
          · exact .inl hmem
          · exact .inr ⟨f, List.mem_cons_self, mem_atoms_raise hmem⟩
        · exact .inr ⟨g, List.mem_cons_of_mem _ hg, hmem⟩
  rcases hfold us one h with hmem | hmem
  · cases hmem
  · exact hmem

omit [Std.TransOrd α] in
/-- The atoms of a product in which atoms were replaced are atoms of what replaced them. -/
theorem mem_atoms_bind {β : Type} [Ord β] [Std.TransOrd β] {f : α → Product β} {b : β}
    (h : b ∈ (u.bind f).atoms) : ∃ a ∈ u.atoms, b ∈ (f a).atoms := by
  obtain ⟨_, hg, hmem⟩ := mem_atoms_ofPowers h
  obtain ⟨g, hgu, rfl⟩ := List.mem_map.1 hg
  exact ⟨g.1, mem_atoms_of_mem hgu, hmem⟩

end Product

end Tabula
