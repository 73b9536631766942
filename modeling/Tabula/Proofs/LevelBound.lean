import Tabula.Proofs.StoreInvariant

/-!
# The bound on levels is never reached

`Store.unify` goes down a number of levels that is fixed in advance.  On a well formed store the number is
large enough, so an attempt that fails has met an equation without a solution.

The argument has two parts.  As long as no type variable gets a value, every level leads to proper parts of a
term in which values are followed, and their number is bounded through the ranks of the variables.  When a
type variable gets a value, the bound starts again from the top, but there is one open variable less.
-/

namespace Tabula

namespace Term

theorem depth_le_depthArgs {args : List (Arg UnitTerm Term)} {t : Term} (h : .type t ∈ args) :
    t.depth ≤ depthArgs args := by
  induction args with
  | nil => cases h
  | cons a args ih =>
      rcases List.mem_cons.1 h with rfl | h
      · exact Nat.le_max_left _ _
      · have hle := ih h
        cases a with
        | unit u => exact hle
        | type t' => exact Nat.le_trans hle (Nat.le_max_right _ _)

theorem depth_le_depthFields {fields : List (Field Term)} {f : Field Term} (h : f ∈ fields) :
    f.type.depth ≤ depthFields fields := by
  induction fields with
  | nil => cases h
  | cons g fields ih =>
      rcases List.mem_cons.1 h with rfl | h
      · exact Nat.le_max_left _ _
      · exact Nat.le_trans (ih h) (Nat.le_max_right _ _)

theorem depth_le_depthParams {params : List Term} {t : Term} (h : t ∈ params) :
    t.depth ≤ depthParams params := by
  induction params with
  | nil => cases h
  | cons p params ih =>
      rcases List.mem_cons.1 h with rfl | h
      · exact Nat.le_max_left _ _
      · exact Nat.le_trans (ih h) (Nat.le_max_right _ _)

theorem depth_pos (t : Term) : 0 < t.depth := by
  cases t <;> simp [depth]

theorem depth_lt_of_mem_children {c t : Term} (h : c ∈ t.children) : c.depth < t.depth := by
  cases t with
  | var | primitive | number => cases h
  | tagged name args => exact Nat.lt_succ_of_le (depth_le_depthArgs (mem_children_tagged.1 h))
  | record fields complete =>
      obtain ⟨f, hf, rfl⟩ := List.mem_map.1 h
      exact Nat.lt_succ_of_le (depth_le_depthFields hf)
  | array element =>
      obtain rfl := List.mem_singleton.1 h
      exact Nat.lt_succ_self _
  | function params result =>
      rcases List.mem_append.1 h with h | h
      · exact Nat.lt_succ_of_le (Nat.le_trans (depth_le_depthParams h) (Nat.le_max_left _ _))
      · obtain rfl := List.mem_singleton.1 h
        exact Nat.lt_succ_of_le (Nat.le_max_right _ _)

theorem everywhere_depth_le {d : Nat} {t : Term} (h : t.depth ≤ d) :
    t.Everywhere (fun t => t.depth ≤ d) fun _ => True := by
  induction t using induction_on_children with
  | step t ih =>
      refine .intro h (fun _ _ => trivial) fun c hc => ih c hc ?_
      exact Nat.le_trans (Nat.le_of_lt (depth_lt_of_mem_children hc)) h

end Term

namespace Store

variable {s s' : Store} {d n levels : Nat} {t : Term}

theorem openCount_eq (s : Store) : s.openCount = s.types.countP Option.isNone := by
  have hfold : ∀ (values : List (Option Term)) n,
      values.foldl (fun n value => if value.isNone then n + 1 else n) n = n + values.countP Option.isNone := by
    intro values
    induction values with
    | nil => simp
    | cons value values ih =>
        intro n
        rw [List.foldl_cons, ih, List.countP_cons]
        cases value <;> simp [Nat.add_assoc, Nat.add_comm]
  rw [openCount, ← Array.foldl_toList, hfold, Nat.zero_add, Array.countP_toList]

/-- A variable that gets a value is no longer open. -/
theorem openCount_assignType_lt {id : VarId} (hne : t ≠ .var id) (hid : id < s.types.size)
    (hnone : s.typeValue? id = none) : (s.assignType id t).openCount < s.openCount := by
  have hget : s.types[id] = none := by simpa [typeValue?, hid] using hnone
  have hpos : 0 < s.types.countP Option.isNone :=
    Array.countP_pos_iff.2 ⟨none, hget ▸ Array.getElem_mem hid, rfl⟩
  rw [openCount_eq, openCount_eq, assignType_eq hne, Array.setIfInBounds_def, dif_pos hid,
    Array.countP_set hid, hget]
  exact Nat.sub_lt hpos Nat.one_pos

theorem depth_le_valueDepth {id : VarId} (h : s.typeValue? id = some t) : t.depth ≤ s.valueDepth := by
  have hfold : ∀ (values : List (Option Term)) n,
      n ≤ values.foldl (fun d value => max d ((value.map Term.depth).getD 0)) n ∧
        (some t ∈ values →
          t.depth ≤ values.foldl (fun d value => max d ((value.map Term.depth).getD 0)) n) := by
    intro values
    induction values with
    | nil => simp
    | cons value values ih =>
        intro n
        obtain ⟨hle, hmem⟩ := ih (max n ((value.map Term.depth).getD 0))
        refine ⟨Nat.le_trans (Nat.le_max_left _ _) hle, fun h => ?_⟩
        rcases List.mem_cons.1 h with rfl | h
        · exact Nat.le_trans (Nat.le_max_right _ _) hle
        · exact hmem h
  have hmem : some t ∈ s.types.toList := by
    have hid := lt_of_typeValue? h
    have hget : s.types[id] = some t := by simpa [typeValue?, hid] using h
    simp [← hget]
  rw [valueDepth, ← Array.foldl_toList]
  exact (hfold _ 0).2 hmem

/-- At most `n` levels are met on a way down through the term and through values, which have at most `d`
levels each. -/
def Needs (s : Store) (d : Nat) (t : Term) (n : Nat) : Prop :=
  ∃ (rank : VarId → Nat) (r : Nat), (∀ i j, s.TypeEdge i j → rank j < rank i) ∧
    (∀ i, t.Mentions i → rank i < r ∨ s.typeValue? i = none) ∧ r * (d + 1) + t.depth ≤ n

theorem needs_of_below (hs : s.WellFormed) (ht : t.Below s.types.size s.units.size) (hd : t.depth ≤ d) :
    s.Needs d t ((s.types.size + 1) * (d + 1)) := by
  obtain ⟨rank, hedge, hrank⟩ := hs.exists_typeRank
  refine ⟨rank, s.types.size, hedge, fun i hi => .inl (hrank i (ht.lt_of_mentions hi)), ?_⟩
  rw [Nat.succ_mul]
  omega

theorem Needs.child (h : s.Needs d t n) {c : Term} (hc : c ∈ t.children) : s.Needs d c (n - 1) := by
  obtain ⟨rank, r, hedge, hrank, hn⟩ := h
  have hlt := Term.depth_lt_of_mem_children hc
  exact ⟨rank, r, hedge, fun i hi => hrank i (.inside hc hi), by omega⟩

theorem Needs.walk (hdepth : ∀ id t, s.typeValue? id = some t → t.depth ≤ d) (h : s.Needs d t n) :
    s.Needs d (s.walk t) n := by
  refine walk_of (P := fun t => s.Needs d t n) (fun id value hvalue hneeds => ?_) h
  obtain ⟨rank, r, hedge, hrank, hn⟩ := hneeds
  have hid : rank id < r := by
    rcases hrank id .here with hlt | hnone
    · exact hlt
    · rw [hvalue] at hnone
      cases hnone
  refine ⟨rank, rank id, hedge, fun i hi => .inl (hedge id i ⟨value, hvalue, hi⟩), ?_⟩
  have hmul : (rank id + 1) * (d + 1) ≤ r * (d + 1) := Nat.mul_le_mul_right _ hid
  have hvalueDepth := hdepth id value hvalue
  rw [Nat.succ_mul] at hmul
  omega

/-- The levels are enough for the term even if further variables get values. -/
def Affords (s : Store) (d levels : Nat) (t : Term) : Prop :=
  ∃ n, s.Needs d t n ∧ s.openCount * ((s.types.size + 1) * (d + 1) + 1) + n < levels

/-- The second store has the variables of the first one, and the same values or fewer open variables. -/
def Later (s s' : Store) : Prop :=
  s'.types.size = s.types.size ∧ (s'.types = s.types ∨ s'.openCount < s.openCount)

theorem Later.refl (s : Store) : s.Later s :=
  ⟨rfl, .inl rfl⟩

theorem Later.trans {s₁ s₂ s₃ : Store} (h : s₁.Later s₂) (h' : s₂.Later s₃) : s₁.Later s₃ := by
  obtain ⟨hsize, h⟩ := h
  obtain ⟨hsize', h'⟩ := h'
  refine ⟨hsize'.trans hsize, ?_⟩
  have hcount : ∀ {a b : Store}, a.types = b.types → a.openCount = b.openCount := fun h => by
    rw [openCount, openCount, h]
  rcases h with h | h
  · rcases h' with h' | h'
    · exact .inl (h'.trans h)
    · exact .inr (hcount h ▸ h')
  · rcases h' with h' | h'
    · exact .inr (hcount h' ▸ h)
    · exact .inr (Nat.lt_trans h' h)

theorem Affords.later (h : s.Affords d levels t) (hlater : s.Later s') (hs' : s'.WellFormed)
    (ht : t.Below s'.types.size s'.units.size) (hd : t.depth ≤ d) : s'.Affords d levels t := by
  obtain ⟨n, hneeds, hlevels⟩ := h
  obtain ⟨hsize, htypes | hcount⟩ := hlater
  · refine ⟨n, ?_, ?_⟩
    · obtain ⟨rank, r, hedge, hrank, hn⟩ := hneeds
      have hvalue : s'.typeValue? = s.typeValue? := by
        funext id
        rw [typeValue?, typeValue?, htypes]
      refine ⟨rank, r, ?_, ?_, hn⟩
      · rintro i j ⟨u, hu, hj⟩
        exact hedge i j ⟨u, hvalue ▸ hu, hj⟩
      · rwa [hvalue]
    · rwa [openCount, htypes]
  · refine ⟨_, needs_of_below hs' ht hd, ?_⟩
    rw [hsize]
    generalize (s.types.size + 1) * (d + 1) = bound at hlevels ⊢
    have hmul : (s'.openCount + 1) * (bound + 1) ≤ s.openCount * (bound + 1) := Nat.mul_le_mul_right _ hcount
    rw [Nat.succ_mul] at hmul
    omega

/-- At a pair of terms one level is used up, and the terms below them get along with one level less. -/
theorem Affords.child_of_walk (hdepth : ∀ id t, s.typeValue? id = some t → t.depth ≤ d)
    (h : s.Affords d (levels + 1) t) {c : Term} (hc : c ∈ (s.walk t).children) : s.Affords d levels c := by
  obtain ⟨n, hneeds, hlevels⟩ := h
  have hwalk := hneeds.walk hdepth
  refine ⟨n - 1, hwalk.child hc, ?_⟩
  obtain ⟨_, _, -, -, hn⟩ := hwalk
  have hpos := Term.depth_pos (s.walk t)
  omega

theorem isCyclic_of_unifyUnits {u v : UnitTerm} {err : UnifyError} (h : s.unifyUnits u v = .error err) :
    err.isCyclic = false := by
  simp only [unifyUnits] at h
  split at h
  · cases h
    rfl
  · split at h
    · cases h
    · split at h
      · cases h
        rfl
      · cases h

end Store

namespace Pending

variable {w w' : Pending} {d levels : Nat}

theorem Step.later (h : Step w w') (hw : w.WellFormed) : w.store.Later w'.store := by
  obtain ⟨hs, hequations⟩ := hw
  cases h with
  | parts hdemand => exact .refl _
  | value hdemand hoccurs =>
      obtain ⟨he, hf⟩ := (List.forall_mem_cons.1 hequations).1
      obtain ⟨hid, hnone, -⟩ := hs.of_demand_value he hf hdemand
      have hne := hs.ne_var_of_occurs hoccurs
      exact ⟨by simp [Store.assignType_eq hne], .inr (Store.openCount_assignType_lt hne hid hnone)⟩
  | units hunits =>
      have htypes := Store.types_of_unifyUnits hunits
      exact ⟨congrArg Array.size htypes, .inl htypes⟩

theorem Leads.later (h : w.Leads w') (hw : w.WellFormed) : w.store.Later w'.store := by
  induction h with
  | refl => exact .refl _
  | tail hleads hstep ih => exact ih.trans (hstep.later (Leads.wellFormed hleads hw).1)

/-- All terms have at most `d` levels, and the number of levels is enough for each equation. -/
structure Ready (d levels : Nat) (w : Pending) : Prop where
  wellFormed : w.WellFormed
  shallow : w.Everywhere (fun t => t.depth ≤ d) fun _ => True
  affords : ∀ q ∈ w.equations, q.All (w.store.Affords d levels) fun _ => True

/-- The equations that wait while others are worked off stay affordable. -/
theorem Ready.of_leads {qs rest : List Equation} {s s' : Store} (h : Ready d levels ⟨qs ++ rest, s⟩)
    (hleads : Leads ⟨qs ++ rest, s⟩ ⟨rest, s'⟩) : Ready d levels ⟨rest, s'⟩ := by
  obtain ⟨hw, hshallow, haffords⟩ := h
  have hw' := (hleads.wellFormed hw).1
  have hlater := hleads.later hw
  refine ⟨hw', hleads.everywhere hshallow, fun q hq => ?_⟩
  have hq' := haffords q (List.mem_append_right _ hq)
  have hbelow := hw'.equations q hq
  have hdepth := (hleads.everywhere hshallow).equations q hq
  cases q with
  | types field e f =>
      exact ⟨hq'.1.later hlater hw'.store hbelow.1 hdepth.1.node,
        hq'.2.later hlater hw'.store hbelow.2 hdepth.2.node⟩
  | units u v => exact ⟨trivial, trivial⟩
  | failure err => exact hq'

section Levels

variable (ih : ∀ {field e f s err s'}, Ready d levels ⟨[.types field e f], s⟩ →
  UnifyM.within levels e f s = .error err s' → err.isCyclic = false)
include ih

theorem isCyclic_of_satisfy {q : Equation} {s s' : Store} {err : UnifyError} (h : Ready d levels ⟨[q], s⟩)
    (herr : UnifyM.satisfy (UnifyM.within levels) q s = .error err s') : err.isCyclic = false := by
  cases q with
  | types field e f =>
      cases field with
      | none => exact ih h herr
      | some name =>
          rw [UnifyM.satisfy, EStateM.adaptExcept] at herr
          split at herr
          · rename_i cause _ hcause
            cases herr
            have hinner : cause.isCyclic = false := ih h hcause
            exact hinner
          · cases herr
  | units u v =>
      rw [UnifyM.satisfy_units] at herr
      split at herr
      · cases herr
      · rename_i err' hunits
        cases herr
        exact Store.isCyclic_of_unifyUnits hunits
  | failure err' =>
      have hfailure := List.forall_mem_singleton.1 h.affords
      cases herr
      exact hfailure

theorem isCyclic_of_satisfyAll {qs : List Equation} {s s' : Store} {err : UnifyError}
    (h : Ready d levels ⟨qs, s⟩) (herr : UnifyM.satisfyAll (UnifyM.within levels) qs s = .error err s') :
    err.isCyclic = false := by
  induction qs generalizing s with
  | nil => cases herr
  | cons q qs ihq =>
      have hends := endsIn_satisfy (endsIn_within levels) q qs s
      have hfirst : Ready d levels ⟨[q], s⟩ := by
        have hsub : ∀ q' ∈ [q], q' ∈ q :: qs := by simp
        exact ⟨⟨h.wellFormed.store, fun q' hq => h.wellFormed.equations q' (hsub q' hq)⟩,
          ⟨h.shallow.store, fun q' hq => h.shallow.equations q' (hsub q' hq)⟩,
          fun q' hq => h.affords q' (hsub q' hq)⟩
      replace herr : EStateM.bind (UnifyM.satisfy (UnifyM.within levels) q)
        (fun _ => UnifyM.satisfyAll (UnifyM.within levels) qs) s = .error err s' := herr
      rw [EStateM.bind] at herr
      cases hr : UnifyM.satisfy (UnifyM.within levels) q s with
      | ok a s₁ =>
          rw [hr] at herr hends
          exact ihq (@Ready.of_leads _ _ [q] qs s s₁ h hends) herr
      | error e s₁ =>
          rw [hr] at herr
          cases herr
          exact isCyclic_of_satisfy ih hfirst hr

end Levels

/-- Levels that are enough for two terms are not used up on the way through them. -/
theorem Ready.isCyclic_of_within {field : Option Name} {e f : Term} {s s' : Store} {err : UnifyError}
    (h : Ready d levels ⟨[.types field e f], s⟩) (herr : UnifyM.within levels e f s = .error err s') :
    err.isCyclic = false := by
  induction levels generalizing field e f s err s' with
  | zero =>
      obtain ⟨⟨n, -, hlt⟩, -⟩ := List.forall_mem_singleton.1 h.affords
      exact absurd hlt (Nat.not_lt_zero _)
  | succ levels ih =>
      rw [UnifyM.within_succ] at herr
      cases hdemand : (s.walk e).demand (s.walk f) with
      | value id t =>
          rw [hdemand, UnifyM.meet_value] at herr
          split at herr
          · cases herr
            rfl
          · cases herr
      | equations qs =>
          rw [hdemand] at herr
          have hstep : Step ⟨[.types field e f], s⟩ ⟨qs ++ [], s⟩ := .parts hdemand
          rw [List.append_nil] at hstep
          refine isCyclic_of_satisfyAll ih ⟨(hstep.wellFormed h.wellFormed).1, hstep.everywhere h.shallow, ?_⟩ herr
          obtain ⟨he, hf⟩ := List.forall_mem_singleton.1 h.affords
          have hdepth := fun id t hvalue => (h.shallow.store id t hvalue).node
          intro q hq
          exact (Term.demand_between hdemand q hq).imp
            (fun _ _ hparts => ⟨he.child_of_walk hdepth hparts.1, hf.child_of_walk hdepth hparts.2⟩)
            fun _ _ _ => ⟨trivial, trivial⟩

end Pending

namespace Store

variable {s : Store} {e f : Term}

/-- An attempt on a well formed store has enough levels. -/
theorem WellFormed.isCyclic_of_unify (hs : s.WellFormed) (he : e.Below s.types.size s.units.size)
    (hf : f.Below s.types.size s.units.size) {err : UnifyError} (h : (s.unify e f).result = .error err) :
    err.isCyclic = false := by
  let d := max s.valueDepth (max e.depth f.depth)
  have hed : e.depth ≤ d := by omega
  have hfd : f.depth ≤ d := by omega
  have haffords : ∀ t, t.Below s.types.size s.units.size → t.depth ≤ d →
      s.Affords d (s.levelBound e f) t := by
    intro t ht htd
    refine ⟨_, needs_of_below hs ht htd, ?_⟩
    rw [levelBound, Nat.succ_mul s.openCount]
    exact Nat.add_lt_add_left (Nat.lt_succ_self _) _
  have hready : Pending.Ready d (s.levelBound e f) ⟨[.types none e f], s⟩ := by
    refine ⟨⟨hs, List.forall_mem_singleton.2 ⟨he, hf⟩⟩, ⟨fun id t hvalue => ?_, ?_⟩, ?_⟩
    · exact Term.everywhere_depth_le (Nat.le_trans (depth_le_valueDepth hvalue) (Nat.le_max_left _ _))
    · exact List.forall_mem_singleton.2 ⟨Term.everywhere_depth_le hed, Term.everywhere_depth_le hfd⟩
    · exact List.forall_mem_singleton.2 ⟨haffords e he hed, haffords f hf hfd⟩
  unfold unify at h
  cases hr : UnifyM.within (s.levelBound e f) e f s with
  | ok a s' =>
      rw [hr] at h
      cases h
  | error err' s' =>
      rw [hr] at h
      cases h
      exact hready.isCyclic_of_within hr

/-- An attempt that fails has come to an equation that allows no step. -/
theorem WellFormed.exists_stuck_of_unify (hs : s.WellFormed) (he : e.Below s.types.size s.units.size)
    (hf : f.Below s.types.size s.units.size) {err : UnifyError} (h : (s.unify e f).result = .error err) :
    ∃ w, Pending.Leads ⟨[.types none e f], s⟩ w ∧ w.Stuck := by
  obtain ⟨qs, hleads, hcyclic | hstuck⟩ := Pending.leads_of_unify_error h
  · rw [hs.isCyclic_of_unify he hf h] at hcyclic
    cases hcyclic
  · exact ⟨_, hleads, hstuck⟩

end Store

end Tabula
