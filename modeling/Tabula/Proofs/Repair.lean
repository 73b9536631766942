import Mathlib.Algebra.GroupWithZero.Nat
import Tabula.Proofs.Results
import Tabula.Proofs.SchemeParts
import Tabula.Scheme.Grounding

/-!
# Repairs make progress

A written type without a ground type is reported with the part that has no meaning and with types to put in
its place.  Here it is shown that every such replacement leaves fewer unresolved parts behind, so that repairs
come to an end whichever suggestions are picked.

Two things could go wrong and do not.  What is put in place could bring unresolved parts with it; but a
suggestion differs from the part in its outermost layer only, and that layer is resolved.  And a type around
the part could become equal to it; but it would have to be larger than itself.

Nothing is said about how good the suggestions are, nor that there is one for every part.
-/

namespace Tabula

open List (Forall₂)

namespace Scheme

section Replacement

variable {t target new : Scheme}

theorem replace_of_beq (h : t == target) : t.replace target new = new := by
  cases t <;> exact if_pos h

theorem children_replaceArgs {name name' : Name} (args : List (Arg UnitScheme Scheme)) :
    (apply name (replaceArgs args target new)).children =
      (apply name' args).children.map fun c => c.replace target new := by
  induction args with
  | nil => rfl
  | cons a args ih =>
      cases a with
      | unit u => exact ih
      | type t => exact congrArg (t.replace target new :: ·) ih

theorem replaceFields_eq_map (fields : List (Field Scheme)) :
    replaceFields fields target new = fields.map fun f => { f with type := f.type.replace target new } := by
  induction fields with
  | nil => rfl
  | cons f fields ih => rw [replaceFields, ih, List.map_cons]

theorem replaceParams_eq_map (params : List Scheme) :
    replaceParams params target new = params.map fun t => t.replace target new := by
  induction params with
  | nil => rfl
  | cons t params ih => rw [replaceParams, ih, List.map_cons]

/-- A type that is not replaced itself has its parts replaced. -/
theorem children_replace (h : (t == target) = false) :
    (t.replace target new).children = t.children.map fun c => c.replace target new := by
  cases t with
  | primitive | number | ident => simp [replace, h, children]
  | apply name args =>
      simp only [replace, h]
      exact children_replaceArgs args
  | record fields complete => simp [replace, h, children, replaceFields_eq_map]
  | array element => simp [replace, h, children]
  | function params result => simp [replace, h, children, replaceParams_eq_map]

theorem replaceArgs_eq_self {args : List (Arg UnitScheme Scheme)}
    (h : ∀ t, .type t ∈ args → t.replace target new = t) : replaceArgs args target new = args := by
  induction args with
  | nil => rfl
  | cons a args ih =>
      have hargs := ih fun t ht => h t (List.mem_cons_of_mem _ ht)
      cases a with
      | unit u => rw [replaceArgs, hargs]
      | type t => rw [replaceArgs, hargs, h t List.mem_cons_self]

/-- A type stays as it is if it is not replaced itself and if what is directly below it stays. -/
theorem replace_eq_self (h : (t == target) = false)
    (hchildren : ∀ c ∈ t.children, c.replace target new = c) : t.replace target new = t := by
  cases t with
  | primitive | number | ident => simp [replace, h]
  | apply name args =>
      have hargs := replaceArgs_eq_self fun t ht => hchildren t (mem_children_apply.2 ht)
      simp [replace, h, hargs]
  | record fields complete =>
      have hfields : replaceFields fields target new = fields := by
        have hsame : ∀ f ∈ fields, { f with type := f.type.replace target new } = id f := fun f hf => by
          rw [hchildren f.type (List.mem_map_of_mem hf)]
          rfl
        rw [replaceFields_eq_map, List.map_congr_left hsame, List.map_id]
      simp [replace, h, hfields]
  | array element => simp [replace, h, hchildren element List.mem_cons_self]
  | function params result =>
      have hparams : replaceParams params target new = params := by
        have hsame : ∀ t ∈ params, t.replace target new = id t := fun t ht =>
          hchildren t (List.mem_append_left _ ht)
        rw [replaceParams_eq_map, List.map_congr_left hsame, List.map_id]
      have hresult := hchildren result (List.mem_append_right _ List.mem_cons_self)
      simp [replace, h, hparams, hresult]

/-- Either there was nothing to replace, or what was put in place can be found in the result. -/
theorem replace_eq_self_or_part (t target new : Scheme) :
    t.replace target new = t ∨ Part new (t.replace target new) := by
  induction t using induction_on_children with
  | step t ih =>
      by_cases htarget : t == target
      · exact .inr (replace_of_beq htarget ▸ .self)
      have htarget := Bool.eq_false_of_not_eq_true htarget
      by_cases hchange : ∃ c ∈ t.children, Part new (c.replace target new)
      · obtain ⟨c, hc, hpart⟩ := hchange
        refine .inr (part_iff.2 (.inr ⟨_, ?_, hpart⟩))
        rw [children_replace htarget]
        exact List.mem_map_of_mem hc
      · exact .inl (replace_eq_self htarget fun c hc =>
          (ih c hc).resolve_right fun hpart => hchange ⟨c, hc, hpart⟩)

/-- The part that was replaced is gone, if what is put in its place is at least as large and does not hold it. -/
theorem not_beq_of_part_replace (hnew : ∀ p, Part p new → (p == target) = false)
    (hsize : target.size ≤ new.size) {p : Scheme} (h : Part p (t.replace target new)) :
    (p == target) = false := by
  induction t using induction_on_children generalizing p with
  | step t ih =>
      by_cases htarget : t == target
      · rw [replace_of_beq htarget] at h
        exact hnew p h
      have htarget := Bool.eq_false_of_not_eq_true htarget
      rcases part_iff.1 h with rfl | ⟨c, hc, hpart⟩
      · refine Bool.eq_false_of_not_eq_true fun hbeq => ?_
        rcases replace_eq_self_or_part t target new with heq | hpart
        · rw [heq, htarget] at hbeq
          cases hbeq
        · -- The whole would be equal to a type that is no larger than one of its own parts.
          rcases part_iff.1 hpart with heq | ⟨c, hc, hpart⟩
          · rw [← heq, hnew new .self] at hbeq
            cases hbeq
          · have hle := hpart.size_le
            have hlt := size_lt_of_mem_children hc
            have heq := size_of_beq hbeq
            omega
      · rw [children_replace htarget] at hc
        obtain ⟨d, hd, rfl⟩ := List.mem_map.1 hc
        exact ih d hd hpart

end Replacement

section Unresolved

variable {s : Substitution} {c : Catalog} {t target new : Scheme}

/-- The type has no meaning, whatever its parts are: a record that is left open, a tagged type that is not
declared, or a name that is neither bound nor declared. -/
def isUnresolved (s : Substitution) (c : Catalog) : Scheme → Bool
  | ident name => (s.get? name).isNone && (c.find? name).isNone
  | apply name _ => (c.find? name).isNone
  | record _ complete => !complete
  | primitive _ | number _ | array _ | function _ _ => false

/-- How many unresolved types there are in a type. -/
def unresolvedCount (s : Substitution) (c : Catalog) (t : Scheme) : Nat :=
  t.nodes.countP (isUnresolved s c)

theorem unresolvedCount_eq (t : Scheme) :
    t.unresolvedCount s c =
      (t.children.map (unresolvedCount s c)).sum + if t.isUnresolved s c then 1 else 0 := by
  rw [unresolvedCount, nodes_eq, List.countP_cons, List.countP_flatMap]
  rfl

theorem isUnresolved_of_beq (h : t == target) : t.isUnresolved s c = target.isUnresolved s c := by
  cases t with
  | primitive | number | array | function => cases target <;> first | rfl | cases h
  | ident name =>
      cases target with
      | ident name' =>
          obtain rfl : name = name' := eq_of_beq h
          rfl
      | primitive | number | apply | record | array | function => cases h
  | apply name args =>
      cases target with
      | apply name' args' =>
          obtain rfl : name = name' := eq_of_beq (Bool.and_eq_true_iff.1 h).1
          rfl
      | primitive | number | ident | record | array | function => cases h
  | record fields complete =>
      cases target with
      | record fields' complete' =>
          obtain rfl : complete = complete' := eq_of_beq (Bool.and_eq_true_iff.1 h).2
          rfl
      | primitive | number | ident | apply | array | function => cases h

theorem unresolvedCount_of_beq (h : t == target) : t.unresolvedCount s c = target.unresolvedCount s c := by
  have hmap : t.nodes.map (isUnresolved s c) = target.nodes.map (isUnresolved s c) :=
    map_eq_map_iff_forall₂.2 ((nodes_of_beq h).imp fun _ _ => isUnresolved_of_beq)
  have hcount : ∀ r : Scheme, (r.nodes.map (isUnresolved s c)).countP id = r.unresolvedCount s c :=
    fun r => List.countP_map
  rw [← hcount, ← hcount, hmap]

theorem isUnresolved_replace (h : (t == target) = false) :
    (t.replace target new).isUnresolved s c = t.isUnresolved s c := by
  cases t <;> simp [replace, h, isUnresolved]

/-- What is directly below a type that is not replaced itself decides how many parts stay unresolved. -/
theorem unresolvedCount_replace (h : (t == target) = false) :
    (t.replace target new).unresolvedCount s c =
      (t.children.map fun d => (d.replace target new).unresolvedCount s c).sum +
        if t.isUnresolved s c then 1 else 0 := by
  rw [unresolvedCount_eq, isUnresolved_replace h, children_replace h, List.map_map]
  rfl

theorem unresolvedCount_replace_le (h : new.unresolvedCount s c ≤ target.unresolvedCount s c) :
    (t.replace target new).unresolvedCount s c ≤ t.unresolvedCount s c := by
  induction t using induction_on_children with
  | step t ih =>
      by_cases htarget : t == target
      · rwa [replace_of_beq htarget, unresolvedCount_of_beq htarget]
      · rw [unresolvedCount_replace (Bool.eq_false_of_not_eq_true htarget), unresolvedCount_eq t]
        exact Nat.add_le_add_right (List.sum_le_sum ih) _

/-- A replacement with fewer unresolved types leaves fewer of them, if there is something to replace. -/
theorem unresolvedCount_replace_lt (h : new.unresolvedCount s c < target.unresolvedCount s c)
    (hpart : Part target t) :
    (t.replace target new).unresolvedCount s c < t.unresolvedCount s c := by
  induction t using induction_on_children with
  | step t ih =>
      by_cases htarget : t == target
      · rwa [replace_of_beq htarget, unresolvedCount_of_beq htarget]
      · rw [unresolvedCount_replace (Bool.eq_false_of_not_eq_true htarget), unresolvedCount_eq t]
        rcases part_iff.1 hpart with rfl | ⟨d, hd, hpart⟩
        · exact absurd (beq_refl target) htarget
        · exact Nat.add_lt_add_right (List.sum_lt_sum (fun d => (d.replace target new).unresolvedCount s c)
            (unresolvedCount s c) (fun _ _ => unresolvedCount_replace_le h.le) ⟨d, hd, ih d hd hpart⟩) _

/-- A resolved type with the same parts as an unresolved one is a replacement that makes progress. -/
theorem progress_of_children_eq (hpart : Part target t) (htarget : target.isUnresolved s c = true)
    (hnew : new.isUnresolved s c = false) (hchildren : new.children = target.children) :
    (∀ p, Part p (t.replace target new) → (p == target) = false) ∧
      (t.replace target new).unresolvedCount s c < t.unresolvedCount s c := by
  have hsize : target.size = new.size := by
    rw [size, size, nodes_eq, nodes_eq new, hchildren, List.length_cons, List.length_cons]
  have hgone : ∀ p, Part p new → (p == target) = false := by
    refine fun p hp => Bool.eq_false_of_not_eq_true fun hbeq => ?_
    rcases part_iff.1 hp with rfl | ⟨d, hd, hp⟩
    · rw [isUnresolved_of_beq hbeq, htarget] at hnew
      cases hnew
    · -- The parts below are those of the type itself, so none of them is as large as it.
      have hle := hp.size_le
      have hlt := size_lt_of_mem_children hd
      have heq := size_of_beq hbeq
      omega
  have hcount : new.unresolvedCount s c < target.unresolvedCount s c := by
    rw [unresolvedCount_eq, unresolvedCount_eq target, hchildren, if_neg (by simp [hnew]), if_pos htarget]
    omega
  exact ⟨fun p => not_beq_of_part_replace hgone hsize.le, unresolvedCount_replace_lt hcount hpart⟩

end Unresolved

section Reported

variable {s : Substitution} {c : Catalog} {part : Unresolved} {suggestions : List Scheme}

theorem exists_of_toGroundArgs_eq_unresolved {args : List (Arg UnitScheme Scheme)}
    (h : toGroundArgs s c args = .error (.unresolved part suggestions)) :
    ∃ t, .type t ∈ args ∧ t.toGround s c = .error (.unresolved part suggestions) := by
  induction args with
  | nil => cases h
  | cons a args ih =>
      have hargs : toGroundArgs s c args = .error (.unresolved part suggestions) →
          ∃ t, .type t ∈ a :: args ∧ t.toGround s c = .error (.unresolved part suggestions) := fun h => by
        obtain ⟨t, ht, herror⟩ := ih h
        exact ⟨t, List.mem_cons_of_mem _ ht, herror⟩
      cases a with
      | unit u =>
          rcases bind_eq_error_iff.1 h with h | ⟨_, -, h⟩
          · obtain ⟨_, -, h⟩ := mapError_eq_error_iff.1 h
            cases h
          · rcases bind_eq_error_iff.1 h with h | ⟨_, -, h⟩
            · exact hargs h
            · cases h
      | type t =>
          rcases bind_eq_error_iff.1 h with h | ⟨_, -, h⟩
          · exact ⟨t, List.mem_cons_self, h⟩
          · rcases bind_eq_error_iff.1 h with h | ⟨_, -, h⟩
            · exact hargs h
            · cases h

theorem exists_of_toGroundFields_eq_unresolved {fields : List (Field Scheme)}
    (h : toGroundFields s c fields = .error (.unresolved part suggestions)) :
    ∃ f ∈ fields, f.type.toGround s c = .error (.unresolved part suggestions) := by
  induction fields with
  | nil => cases h
  | cons f fields ih =>
      rcases bind_eq_error_iff.1 h with h | ⟨d, -, h⟩
      · exact ⟨f, List.mem_cons_self, h⟩
      rcases bind_eq_error_iff.1 h with h | ⟨_, -, h⟩
      · -- A field that cannot be wrapped is reported as a fault of its arguments.
        rw [groundFieldType] at h
        split at h
        · cases h
        · obtain ⟨_, -, h⟩ := mapError_eq_error_iff.1 h
          cases h
      rcases bind_eq_error_iff.1 h with h | ⟨_, -, h⟩
      · obtain ⟨g, hg, herror⟩ := ih h
        exact ⟨g, List.mem_cons_of_mem _ hg, herror⟩
      · cases h

theorem exists_of_toGroundParams_eq_unresolved {params : List Scheme}
    (h : toGroundParams s c params = .error (.unresolved part suggestions)) :
    ∃ t ∈ params, t.toGround s c = .error (.unresolved part suggestions) := by
  induction params with
  | nil => cases h
  | cons t params ih =>
      rcases bind_eq_error_iff.1 h with h | ⟨_, -, h⟩
      · exact ⟨t, List.mem_cons_self, h⟩
      rcases bind_eq_error_iff.1 h with h | ⟨_, -, h⟩
      · obtain ⟨t', ht', herror⟩ := ih h
        exact ⟨t', List.mem_cons_of_mem _ ht', herror⟩
      · cases h

theorem of_groundTagged_eq_unresolved {name : Name} {args : List (Arg Measure GroundType)} {whole : Unresolved}
    (h : groundTagged c name args whole = .error (.unresolved part suggestions)) :
    c.find? name = none ∧ part = whole ∧ suggestions = whole.suggestions c := by
  rw [groundTagged, Catalog.lookup] at h
  cases hfind : c.find? name with
  | none =>
      rw [hfind] at h
      cases h
      exact ⟨rfl, rfl, rfl⟩
  | some d =>
      rw [hfind] at h
      cases hinst : d.instantiate args <;> simp [hinst, Except.map] at h

/-- An unresolved part is the type itself or is reported for a type directly below it. -/
theorem toGround_eq_unresolved_cases {t : Scheme}
    (h : t.toGround s c = .error (.unresolved part suggestions)) :
    (part.toScheme = t ∧ t.isUnresolved s c = true ∧ suggestions = part.suggestions c) ∨
      ∃ d ∈ t.children, d.toGround s c = .error (.unresolved part suggestions) := by
  cases t with
  | primitive p => cases h
  | number u =>
      obtain ⟨_, -, h⟩ := mapError_eq_error_iff.1 (map_eq_error_iff.1 h)
      cases h
  | ident name =>
      rw [toGround, Bindings.typeVar] at h
      cases hget : s.get? name with
      | none =>
          rw [hget] at h
          obtain ⟨hfind, rfl, rfl⟩ := of_groundTagged_eq_unresolved h
          exact .inl ⟨rfl, by simp [isUnresolved, hget, hfind], rfl⟩
      | some value =>
          rw [hget] at h
          cases value <;> cases h
  | apply name args =>
      rcases bind_eq_error_iff.1 h with h | ⟨values, -, h⟩
      · obtain ⟨d, hd, h⟩ := exists_of_toGroundArgs_eq_unresolved h
        exact .inr ⟨d, mem_children_apply.2 hd, h⟩
      · obtain ⟨hfind, rfl, rfl⟩ := of_groundTagged_eq_unresolved h
        exact .inl ⟨rfl, by simp [isUnresolved, hfind], rfl⟩
  | record fields complete =>
      cases complete with
      | false =>
          cases h
          exact .inl ⟨rfl, rfl, rfl⟩
      | true =>
          obtain ⟨f, hf, h⟩ := exists_of_toGroundFields_eq_unresolved (map_eq_error_iff.1 h)
          exact .inr ⟨f.type, List.mem_map_of_mem hf, h⟩
  | array element => exact .inr ⟨element, List.mem_cons_self, map_eq_error_iff.1 h⟩
  | function params result =>
      rcases bind_eq_error_iff.1 h with h | ⟨_, -, h⟩
      · obtain ⟨d, hd, h⟩ := exists_of_toGroundParams_eq_unresolved h
        exact .inr ⟨d, List.mem_append_left _ hd, h⟩
      rcases bind_eq_error_iff.1 h with h | ⟨_, -, h⟩
      · exact .inr ⟨result, List.mem_append_right _ List.mem_cons_self, h⟩
      · cases h

/-- What is reported is an unresolved part of the type, with the suggestions for it. -/
theorem part_of_toGround_eq_unresolved {t : Scheme}
    (h : t.toGround s c = .error (.unresolved part suggestions)) :
    Part part.toScheme t ∧ part.toScheme.isUnresolved s c = true ∧ suggestions = part.suggestions c := by
  induction t using induction_on_children with
  | step t ih =>
      rcases toGround_eq_unresolved_cases h with ⟨rfl, hunresolved, hsuggestions⟩ | ⟨d, hd, h⟩
      · exact ⟨.self, hunresolved, hsuggestions⟩
      · obtain ⟨hpart, hrest⟩ := ih d hd h
        exact ⟨part_iff.2 (.inr ⟨d, hd, hpart⟩), hrest⟩

end Reported

end Scheme

/-- Ranking keeps, orders and cuts off, but makes nothing up. -/
theorem Suggestion.exists_of_mem_rank {α : Type} [BEq α] {score : Score} {settings : Settings} {input : Name}
    {pool : List (Candidate α)} {new : α} (h : new ∈ rank score settings input pool) :
    ∃ candidate ∈ pool, candidate.replacement = new := by
  obtain ⟨⟨score, candidate⟩, hscored, rfl⟩ :=
    List.mem_map.1 ((eraseDups_sublist _).subset (List.mem_of_mem_take h))
  obtain ⟨_, hmem, hscore⟩ := List.mem_filterMap.1 (List.mem_mergeSort.1 hscored)
  obtain ⟨_, -, heq⟩ := Option.map_eq_some_iff.1 hscore
  cases heq
  exact ⟨candidate, hmem, rfl⟩

theorem Catalog.isNone_find?_of_mem {c : Catalog} {e : Entry TaggedType.name} (h : e ∈ c.entries) :
    (c.find? e.key).isNone = false := by
  have hsome : (c.entries.find? fun f => f.key == e.key).isSome := List.find?_isSome.2 ⟨e, h, beq_self_eq_true _⟩
  rw [← Option.not_isSome, find?, Entry.find?, Option.isSome_map, hsome]
  rfl

/-- A suggestion differs from the part that it is made for in the outermost layer only, which is resolved. -/
theorem Unresolved.of_mem_suggestions {s : Substitution} {c : Catalog} {part : Unresolved} {new : Scheme}
    (h : new ∈ part.suggestions c) :
    new.isUnresolved s c = false ∧ new.children = part.toScheme.children := by
  cases part with
  | name n =>
      obtain ⟨candidate, hmem, rfl⟩ := Suggestion.exists_of_mem_rank h
      -- The builtin types are resolved by themselves, the others are declared.
      have hbuiltin : ∀ candidate ∈ Catalog.builtinCandidates ++ Catalog.aliasCandidates,
          candidate.replacement.isUnresolved s c = false ∧ candidate.replacement.children = [] := by
        simp only [Catalog.builtinCandidates, Catalog.aliasCandidates, Primitive.all, List.map_cons, List.map_nil,
          List.cons_append, List.nil_append, List.forall_mem_cons]
        exact ⟨⟨rfl, rfl⟩, by simp [Scheme.isUnresolved, Scheme.children]⟩
      rcases List.mem_append.1 hmem with hmem | hmem
      · refine hbuiltin candidate ?_
        rcases List.mem_append.1 hmem with hmem | hmem
        · exact List.mem_append_left _ hmem
        · split at hmem
          · exact List.mem_append_right _ hmem
          · cases hmem
      · obtain ⟨d, hd, rfl⟩ := List.mem_map.1 hmem
        exact ⟨by simp [Scheme.isUnresolved, Catalog.isNone_find?_of_mem hd], rfl⟩
  | tagged n args =>
      obtain ⟨candidate, hmem, rfl⟩ := Suggestion.exists_of_mem_rank h
      obtain ⟨d, hd, rfl⟩ := List.mem_map.1 hmem
      exact ⟨Catalog.isNone_find?_of_mem hd, rfl⟩
  | openRecord fields =>
      obtain rfl := List.mem_singleton.1 h
      exact ⟨rfl, rfl⟩

namespace Scheme

/-- The second type is the first one with its reported part replaced by one of the suggestions. -/
inductive Repairs (s : Substitution) (c : Catalog) (t : Scheme) : Scheme → Prop where
  | pick {part : Unresolved} {suggestions : List Scheme} {new : Scheme}
      (h : t.toGround s c = .error (.unresolved part suggestions)) (hnew : new ∈ suggestions) :
      Repairs s c t (t.replace part.toScheme new)

section Repairs

variable {s : Substitution} {c : Catalog} {t : Scheme}

/-- The reported part is gone after a replacement, and there are fewer unresolved parts. -/
theorem progress_of_mem_suggestions {part : Unresolved} {suggestions : List Scheme} {new : Scheme}
    (h : t.toGround s c = .error (.unresolved part suggestions)) (hnew : new ∈ suggestions) :
    (∀ p, Part p (t.replace part.toScheme new) → (p == part.toScheme) = false) ∧
      (t.replace part.toScheme new).unresolvedCount s c < t.unresolvedCount s c := by
  obtain ⟨hpart, hunresolved, rfl⟩ := part_of_toGround_eq_unresolved h
  obtain ⟨hresolved, hchildren⟩ := Unresolved.of_mem_suggestions (s := s) hnew
  exact progress_of_children_eq hpart hunresolved hresolved hchildren

theorem Repairs.unresolvedCount_lt {t' : Scheme} (h : Repairs s c t t') :
    t'.unresolvedCount s c < t.unresolvedCount s c := by
  cases h with
  | pick h hnew => exact (progress_of_mem_suggestions h hnew).2

theorem length_le_unresolvedCount {ts : List Scheme} (h : List.IsChain (Repairs s c) (t :: ts)) :
    ts.length ≤ t.unresolvedCount s c := by
  induction ts generalizing t with
  | nil => exact Nat.zero_le _
  | cons t' ts ih =>
      obtain ⟨hstep, hrest⟩ := List.isChain_cons_cons.1 h
      calc (t' :: ts).length = ts.length + 1 := rfl
        _ ≤ t'.unresolvedCount s c + 1 := Nat.succ_le_succ (ih hrest)
        _ ≤ t.unresolvedCount s c := hstep.unresolvedCount_lt

end Repairs

/-- Whatever suggestion is used, the reported part disappears and fewer parts are unresolved than before, so a
series of repairs is no longer than the number of unresolved parts. -/
theorem repairs_make_progress (s : Substitution) (c : Catalog) (t : Scheme) :
    (∀ part suggestions, t.toGround s c = .error (.unresolved part suggestions) →
      Part part.toScheme t ∧ ∀ new ∈ suggestions,
        (∀ p, Part p (t.replace part.toScheme new) → (p == part.toScheme) = false) ∧
          (t.replace part.toScheme new).unresolvedCount s c < t.unresolvedCount s c) ∧
      ∀ ts, List.IsChain (Repairs s c) (t :: ts) → ts.length ≤ t.unresolvedCount s c :=
  ⟨fun _ _ h => ⟨(part_of_toGround_eq_unresolved h).1, fun _ hnew => progress_of_mem_suggestions h hnew⟩,
    fun _ h => length_le_unresolvedCount h⟩

/-- An open record that stands in two places, once inside an undeclared tagged type. -/
theorem repairs_make_progress_of_two_copies :
    let part : Unresolved := .openRecord [⟨"a", .array (.ident "x"), false⟩]
    let new : Scheme := .record [⟨"a", .array (.ident "x"), false⟩] true
    let t : Scheme := .function [.apply "Box" [.type part.toScheme]] part.toScheme
    let t' := t.replace part.toScheme new
    t.toGround .empty .empty = .error (.unresolved part [new]) ∧ t.unresolvedCount .empty .empty = 5 ∧
      t'.unresolvedCount .empty .empty = 3 ∧ Part part.toScheme t ∧
      (∀ p, Part p t' → (p == part.toScheme) = false) ∧
      t'.unresolvedCount .empty .empty < t.unresolvedCount .empty .empty ∧
      [t'].length ≤ t.unresolvedCount .empty .empty := by
  intro part new t t'
  have herror : t.toGround .empty .empty = .error (.unresolved part [new]) := rfl
  have hchain : List.IsChain (Repairs .empty .empty) [t, t'] := by
    refine List.isChain_cons_cons.2 ⟨.pick herror List.mem_cons_self, ?_⟩
    exact .singleton _
  obtain ⟨hstep, hlength⟩ := repairs_make_progress .empty .empty t
  obtain ⟨hpart, hprogress⟩ := hstep part [new] herror
  obtain ⟨hgone, hcount⟩ := hprogress new List.mem_cons_self
  exact ⟨herror, rfl, rfl, hpart, hgone, hcount, hlength [t'] hchain⟩

end Scheme

end Tabula
