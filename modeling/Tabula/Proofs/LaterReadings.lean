import Tabula.Proofs.InferenceComplete

/-!
# What was read back is read back again

A term that has a ground type in a store has the same ground type in every later store of the run, however the
operations in between ended.  For type variables this is plain, since a term with a ground type leads to no open
variable and values stay.  Units are different: a unit can be read although some of its variables are open, if they
cancel out.  A later value of such a variable must not bring it back.

The proof goes through values in a group.  What is left of the unit in the first store has no variables, and it has
the value of the unit under all evaluations of that store, among them those of the later one.  So it is also
what is left in the later store.

Errors are not stable: an open variable may get a value.  Powers have to fit whenever a unit is resolved in one of the
two readings; nothing is assumed about the operations in between.
-/

namespace Tabula

open List (Forall₂)

namespace Store

variable {s s' : Store} {c : Catalog}

/-- All powers fit when the term is read back. -/
def ReadsExactly (s : Store) (t : Term) : Prop :=
  ∀ u, s.Meets u t → s.ResolvesExactly u

/-- All powers fit when the values of the names are read back. -/
def SolvesExactly (s : Store) (b : TermBindings) : Prop :=
  ∀ name a u, b.get? name = some a → s.MeetsArg u a → s.ResolvesExactly u

theorem ReadsExactly.root {t : Term} (h : s.ReadsExactly t) {id : VarId} (hid : t.Mentions id) :
    s.ReadsExactly (s.root id) :=
  fun u hu => h u (.of_mentions (.of_walk (t := .var id) hu) hid)

/-- What holds of the units in a term and in the values holds of every unit that is met. -/
theorem Meets.of_everywhere {Q : UnitTerm → Prop} {t : Term} {u : UnitTerm}
    (hvalues : ∀ id t, s.typeValue? id = some t → t.Everywhere (fun _ => True) Q)
    (ht : t.Everywhere (fun _ => True) Q) (h : s.Meets u t) : Q u := by
  induction h with
  | here h => exact ht.of_hasUnit h
  | value _ hvalue _ ih => exact ih (hvalues _ _ hvalue)

/-- Variables that cancel out in a unit do not come back when they get values. -/
theorem Extends.readUnit_atMost (hextends : s.Extends s') (hs' : s'.WellFormed) {u : UnitTerm}
    (hu : s.ResolvesExactly u) (hu' : s'.ResolvesExactly u) : AtMost (s.readUnit u) (s'.readUnit u) := by
  intro m hm
  have hbare := readUnit_eq_ok_iff_resolve.1 hm
  have hclosed := Measure.not_mem_atoms_of_corresponds (UnitTerm.bare_eq_lift_iff.1 hbare)
  obtain ⟨val, hrespects, hval, hunit, hfree⟩ := hs'.exists_independent
  have hpowers : (s'.resolve u).eval Product.unitPower = (s.resolve u).eval Product.unitPower := calc
    (s'.resolve u).eval Product.unitPower = u.eval val := hfree u hu'
    _ = (s.resolve u).eval val := ((hval.of_extends hextends).eval_resolve hrespects hu).symm
    _ = (s.resolve u).eval Product.unitPower := Product.eval_congr fun a ha => by
      cases a with
      | var id => exact absurd ha (hclosed id)
      | unit w => exact hunit w
  have hsame := UnitTerm.bare_eq_iff.2 (Product.beq_of_eval_unitPower_eq hpowers)
  exact readUnit_eq_ok_iff_resolve.2 (hsame.trans hbare)

/-- A chain that does not end in a variable ends in the same term later on. -/
theorem Extends.root_eq (hextends : s.Extends s') (hs' : s'.WellFormed) {id : VarId}
    (h : ∀ last, s.root id ≠ .var last) : s'.root id = s.root id :=
  (hextends.walk_walk hs' (.var id)).symm.trans (walk_eq_self fun last heq => absurd heq (h last))

theorem Extends.readType_atMost (hextends : s.Extends s') (hs' : s'.WellFormed) {t : Term} (ht : s.ReadsExactly t)
    (ht' : s'.ReadsExactly t) : AtMost (s.readType c t) (s'.readType c t) := by
  -- The induction is on the bound of the first reading; the second one satisfies the equation without a bound.
  have hread : ∀ n t, s.ReadsExactly t → s'.ReadsExactly t →
      AtMost (s.readTypeWithin c n t) (s'.readType c t) := by
    intro n
    induction n with
    | zero => exact fun t _ _ => .of_error
    | succ n ih =>
        intro t ht ht'
        rw [readTypeWithin_succ, hs'.readType_eq]
        refine Term.toGround_atMost_self (fun id hid => ?_) fun u hu =>
          hextends.readUnit_atMost hs' (ht u (.here hu)) (ht' u (.here hu))
        by_cases hopen : ∃ last, s.root id = .var last
        · obtain ⟨last, hlast⟩ := hopen
          rw [hlast]
          exact .of_error
        · have hroot : ∀ last, s.root id ≠ .var last := fun last heq => hopen ⟨last, heq⟩
          have hlater := hextends.root_eq hs' hroot
          rw [hlater, readRoot_of_ne_var hroot, readRoot_of_ne_var hroot]
          exact ih _ (ht.root hid) (hlater ▸ ht'.root hid)
  exact hread _ t ht ht'

theorem Extends.readArg_atMost (hextends : s.Extends s') (hs' : s'.WellFormed) (name : Name)
    {a : Arg UnitTerm Term} (ha : ∀ u, s.MeetsArg u a → s.ResolvesExactly u)
    (ha' : ∀ u, s'.MeetsArg u a → s'.ResolvesExactly u) : AtMost (s.readArg c name a) (s'.readArg c name a) := by
  cases a with
  | unit u =>
      refine AtMost.map (fun m hm => mapError_eq_ok_iff.2 ?_) Arg.unit
      exact hextends.readUnit_atMost hs' (ha u rfl) (ha' u rfl) m (mapError_eq_ok_iff.1 hm)
  | type t =>
      refine AtMost.map (fun d hd => mapError_eq_ok_iff.2 ?_) Arg.type
      exact hextends.readType_atMost hs' ha ha' d (mapError_eq_ok_iff.1 hd)

theorem Extends.solve_atMost (hextends : s.Extends s') (hs' : s'.WellFormed) {b : TermBindings}
    (hb : s.SolvesExactly b) (hb' : s'.SolvesExactly b) : AtMost (s.solve c b) (s'.solve c b) := by
  intro solution hsolution
  refine solve_eq_ok ((forall₂_and_mem (entries_of_solve hsolution)).imp ?_)
  rintro entry value ⟨hmem, hname, hread⟩
  have hget := Bindings.get?_of_mem hmem
  exact ⟨hname, hextends.readArg_atMost hs' entry.1 (fun u => hb _ _ u hget) (fun u => hb' _ _ u hget) _ hread⟩

/-- Units, terms and the values of names that were read back are read back as the same at any later point of a run,
whether the operations in between succeed or fail. -/
theorem readings_stay {more : List Operation} (hs : s.Reachable) (hmore : s.Admits more) (c : Catalog) :
    (∀ u m, s.ResolvesExactly u → (s.run more).ResolvesExactly u → s.readUnit u = .ok m →
      (s.run more).readUnit u = .ok m) ∧
    (∀ t d, s.ReadsExactly t → (s.run more).ReadsExactly t → s.readType c t = .ok d →
      (s.run more).readType c t = .ok d) ∧
    ∀ b solution, s.SolvesExactly b → (s.run more).SolvesExactly b → s.solve c b = .ok solution →
      (s.run more).solve c b = .ok solution := by
  obtain ⟨hs', hextends⟩ := hs.wellFormed.run hmore
  refine ⟨fun u m hu hu' => hextends.readUnit_atMost hs' hu hu' m, fun t d ht ht' =>
    hextends.readType_atMost hs' ht ht' d, fun b solution hb hb' => hextends.solve_atMost hs' hb hb' solution⟩

/-- Of two variables whose product is a metre the second one is open, and it cancels out when the product is read.  Then
it gets a value in an attempt that fails. -/
theorem readings_stay_of_cancelled_variable :
    let u : UnitTerm := ⟨[(.var 0, 1), (.var 1, 1)], by decide, by decide⟩
    let metre : UnitTerm := .single (.unit ⟨"m", "metre"⟩)
    let square : UnitTerm := (Product.single (.unit ⟨"s", "second"⟩)).raise ⟨2, by decide, by decide⟩
    let ops : List Operation := [.freshType, .freshUnit, .freshUnit, .unifyUnits u metre,
      .unify (.var 0) (.array (.number u))]
    let more : List Operation := [.unify (.function [.number (.single (.var 1))] (.primitive .text))
      (.function [.number square] (.primitive .date))]
    let b : TermBindings := ⟨[("a", .type (.var 0)), ("u", .unit u)], by decide⟩
    let length : GroundType := .array (.number (.single "m"))
    let solution : Substitution := ⟨[("a", .type length), ("u", .unit (.single "m"))], by decide⟩
    let s := Store.empty.run ops
    let later := s.run more
    (s.unitValue? 1 = none ∧ later.unitValue? 1 = some square) ∧ s.solve .empty b = .ok solution ∧
      later.readUnit u = .ok (.single "m") ∧ later.readType .empty (.var 0) = .ok length ∧
      later.solve .empty b = .ok solution := by
  intro u metre square ops more b length solution s later
  let value : UnitTerm := ⟨[(.var 1, .negOne), (.unit ⟨"m", "metre"⟩, 1)], by decide, by decide⟩
  -- The stores before the second variable gets its value and after it.
  let s₁ : Store := ⟨#[some (.array (.number u))], #[some value, none]⟩
  let s₂ : Store := ⟨#[some (.array (.number u))], #[some value, some square]⟩
  have h₁ : s = s₁ := by
    simp only [s, s₁, ops, u, metre, value]
    rfl
  have h₂ : s₁.run more = s₂ := by
    simp only [s₁, s₂, more, u, value, square]
    rfl
  have hreachable : s₁.Reachable := by
    refine ⟨ops, ⟨trivial, trivial, trivial, ?_, ?_, trivial⟩, h₁⟩
    · have hsize : (Store.empty.run (ops.take 3)).units.size = 2 := rfl
      show UnitTerm.Below (Store.empty.run (ops.take 3)).units.size _ ∧
        UnitTerm.Below (Store.empty.run (ops.take 3)).units.size _
      rw [hsize]
      simp [UnitTerm.Below, Product.atoms, u, metre, Product.single]
    · have hstore : Store.empty.run (ops.take 4) = ⟨#[none], #[some value, none]⟩ := by
        simp only [ops, u, metre, value]
        rfl
      show Operation.Allowed (Store.empty.run (ops.take 4)) _
      rw [hstore]
      simp [Operation.Allowed, Term.Below, UnitTerm.Below, Product.atoms, u]
  have hmore : s₁.Admits more := by
    refine ⟨?_, trivial⟩
    simp [s₁, Operation.Allowed, Term.Below, UnitTerm.Below, Product.atoms, Product.single, square, Product.raise,
      Product.raiseFactor]
  have hu : s₁.ResolvesExactly u := by
    simp only [s₁, u, value]
    rfl
  have hu' : s₂.ResolvesExactly u := by
    simp only [s₂, u, value, square]
    rfl
  -- The product is the only unit that is met.
  have hread : ∀ {store : Store}, store.types = #[some (.array (.number u))] → store.ResolvesExactly u →
      store.ReadsExactly (.var 0) := by
    intro store htypes hu v
    refine Meets.of_everywhere (fun id t hvalue => ?_) (Term.everywhere_var.2 trivial)
    rw [typeValue?, htypes] at hvalue
    cases id with
    | zero =>
        cases hvalue
        simpa using hu
    | succ id => cases hvalue
  have hsolves : ∀ {store : Store}, store.ReadsExactly (.var 0) → store.ResolvesExactly u →
      store.SolvesExactly b := by
    intro store hread hu name a v ha hv
    have hmem := Bindings.get?_eq_some ha
    simp only [b, List.mem_cons, List.not_mem_nil, or_false, Prod.mk.injEq] at hmem
    rcases hmem with ⟨-, rfl⟩ | ⟨-, rfl⟩
    · exact hread v hv
    · exact hv ▸ hu
  have hunit : s₁.readUnit u = .ok (.single "m") := by
    simp only [s₁, u, value]
    rfl
  have htype : s₁.readType .empty (.var 0) = .ok length := by
    simp only [s₁, u, value, length]
    rfl
  have hsolution : s₁.solve .empty b = .ok solution := by
    simp only [s₁, u, value, b, solution, length]
    rfl
  obtain ⟨hunits, htypes, hsolve⟩ := readings_stay hreachable hmore .empty
  rw [h₂] at hunits htypes hsolve
  have hlater : later = s₂ := by rw [← h₂, ← h₁]
  rw [hlater, h₁]
  exact ⟨⟨rfl, rfl⟩, hsolution, hunits u _ hu hu' hunit, htypes _ _ (hread rfl hu) (hread rfl hu') htype,
    hsolve b solution (hsolves (hread rfl hu) hu) (hsolves (hread rfl hu') hu') hsolution⟩

end Store

end Tabula
