import Tabula.Inference
import Tabula.Proofs.Lowering

/-!
# Inference is sound

The values that `infer` finds make the generic type the same ground type as the concrete one.  The argument
goes through a reading of the store in which unification ends: it reads both terms as the same ground type,
and the values that are read off are what it reads the variables as.

Nothing is said about open records in the generic type, which match more than they are.  What is said about
units is said of runs in which no power is clamped; `InfersExactly` lists the places where one could be.
-/

namespace Tabula

open List (Forall₂)

section FreshVariables

variable {m n : Nat} {s : Store} {b : TermBindings}

/-- The value is a variable, one of `m` type variables or one of `n` unit variables. -/
def Arg.IsVar (m n : Nat) : Arg UnitTerm Term → Prop
  | .type t => ∃ id < m, t = .var id
  | .unit u => ∃ id < n, u = .single (.var id)

theorem Arg.IsVar.mono {m' n' : Nat} {a : Arg UnitTerm Term} (h : a.IsVar m n) (hm : m ≤ m') (hn : n ≤ n') :
    a.IsVar m' n' := by
  cases a with
  | type t =>
      obtain ⟨id, hid, ht⟩ := h
      exact ⟨id, Nat.lt_of_lt_of_le hid hm, ht⟩
  | unit u =>
      obtain ⟨id, hid, hu⟩ := h
      exact ⟨id, Nat.lt_of_lt_of_le hid hn, hu⟩

/-- The names are bound to variables of the store, and no type variable has a value. -/
structure Store.Binds (s : Store) (b : TermBindings) : Prop where
  wellFormed : s.WellFormed
  types : ∀ id, s.typeValue? id = none
  vars : ∀ entry ∈ b.entries, entry.2.IsVar s.types.size s.units.size

theorem Store.Binds.bindFresh (h : s.Binds b) (params : List Param) :
    (s.bindFresh b params).2.Binds (s.bindFresh b params).1 := by
  induction params generalizing s b with
  | nil => exact h
  | cons param params ih =>
      obtain ⟨kind, name⟩ := param
      cases kind with
      | type =>
          refine ih ⟨h.wellFormed.freshType, fun id => typeValue?_freshType.trans (h.types id), ?_⟩
          intro entry hentry
          rcases Ascending.mem_insert hentry with rfl | hentry
          · exact ⟨s.types.size, by simp, rfl⟩
          · exact (h.vars entry hentry).mono (by simp) (Nat.le_refl _)
      | unit =>
          refine ih ⟨h.wellFormed.freshUnit, h.types, ?_⟩
          intro entry hentry
          rcases Ascending.mem_insert hentry with rfl | hentry
          · exact ⟨s.units.size, by simp, rfl⟩
          · exact (h.vars entry hentry).mono (Nat.le_refl _) (by simp)

/-- A term that comes from a written type whose variables are variables of a store. -/
theorem Scheme.regular_and_below_of_toTerm (hb : ∀ entry ∈ b.entries, entry.2.IsVar m n) {g : Scheme} {e : Term}
    (hordered : g.Ordered) (hcomplete : g.Complete) (h : g.toTerm b = .ok e) :
    e.Everywhere Term.Regular (fun _ => True) ∧ e.Below m n := by
  have hall : e.Everywhere (fun t => t.Regular ∧ ∀ id, t = .var id → id < m) (UnitTerm.Below n) := by
    refine everywhere_of_toTerm (fun t hvar hregular => ⟨hregular, fun id ht => absurd ht (hvar id)⟩) ?_ ?_
      hordered hcomplete h
    · intro name t ht
      obtain ⟨id, hid, rfl⟩ := hb _ (Bindings.get?_eq_some (Bindings.typeVar_eq_ok_some_iff.1 ht))
      refine Term.everywhere_var.2 ⟨nofun, ?_⟩
      rintro _ ⟨⟩
      exact hid
    · intro u v hv id hid
      obtain ⟨a, -, x, hx, hmem⟩ := Product.mem_atoms_of_bindM hv hid
      cases a with
      | var name =>
          obtain ⟨id', hid', rfl⟩ := hb _ (Bindings.get?_eq_some (Bindings.unit_eq_ok_iff.1 hx))
          have hvar : Atom.var id = .var id' := List.mem_singleton.1 hmem
          cases hvar
          exact hid'
      | unit w =>
          cases hx
          have hvar : Atom.var id = .unit w := List.mem_singleton.1 hmem
          cases hvar
  exact ⟨hall.imp (fun _ h => h.1) fun _ _ => trivial, hall.imp (fun _ h => h.2) fun _ h => h⟩

end FreshVariables

namespace Store

variable {c : Catalog} {s : Store} {b : TermBindings} {solution : Substitution}

/-- The value of a name is what is read back for it. -/
def ReadsBack (s : Store) (c : Catalog) (entry : Name × Arg UnitTerm Term)
    (value : Name × Arg Measure GroundType) : Prop :=
  entry.1 = value.1 ∧ s.readArg c entry.1 entry.2 = .ok value.2

/-- The values are read back one by one, in the order of the names. -/
theorem entries_of_solve (h : s.solve c b = .ok solution) :
    Forall₂ (s.ReadsBack c) b.entries solution.entries := by
  have hfold : ∀ (entries : List (Name × Arg UnitTerm Term)) (start : Substitution),
      entries.foldlM (fun done entry => do return done.insert entry.1 (← s.readArg c entry.1 entry.2)) start =
        .ok solution →
      ∃ values : List (Name × Arg Measure GroundType), Forall₂ (s.ReadsBack c) entries values ∧
        solution.entries = values.foldl (fun done value => Ascending.insert Prod.fst value done) start.entries := by
    intro entries
    induction entries with
    | nil =>
        intro start h
        cases h
        exact ⟨[], .nil, rfl⟩
    | cons entry entries ih =>
        intro start h
        rw [List.foldlM_cons] at h
        obtain ⟨next, hnext, h⟩ := bind_eq_ok_iff.1 h
        obtain ⟨value, hvalue, hinsert⟩ := bind_eq_ok_iff.1 hnext
        cases hinsert
        obtain ⟨values, hvalues, hentries⟩ := ih _ h
        exact ⟨(entry.1, value) :: values, .cons ⟨rfl, hvalue⟩ hvalues, hentries⟩
  obtain ⟨values, hvalues, hentries⟩ := hfold b.entries .empty h
  have hascending : Ascending Prod.fst values := by
    refine .of_forall₂ hvalues b.ordered fun x x' y y' hxy hxy' hlt => ?_
    rwa [← hxy.1, ← hxy'.1]
  -- The names come in order, so each value goes to the end.
  rwa [hentries.trans (Ascending.ofList_eq_self hascending)]

/-- The value of each name is read back on its own. -/
theorem get?_of_solve (h : s.solve c b = .ok solution) (name : Name) :
    Option.Rel (fun a v => s.readArg c name a = .ok v) (b.get? name) (solution.get? name) := by
  have hrel := Ascending.find?_of_forall₂ (k := name) (entries_of_solve h) fun _ _ hxy => hxy.1
  unfold Bindings.get?
  generalize hentry : Ascending.find? Prod.fst name b.entries = entry at hrel
  generalize Ascending.find? Prod.fst name solution.entries = value at hrel
  cases hrel with
  | none => exact .none
  | some hread =>
      have hname := (Ascending.of_find?_eq_some hentry).2
      exact .some (hname ▸ hread.2)

/-- The unit is met when the value is read back. -/
def MeetsArg (s : Store) (u : UnitTerm) : Arg UnitTerm Term → Prop
  | .unit v => u = v
  | .type t => s.Meets u t

/-- What is read off the store are the readings of the values. -/
theorem ReadBy.matches_of_solve {r : Reading} (hs : s.ReadBy c r)
    (hexact : ∀ name a u, b.get? name = some a → s.MeetsArg u a → s.ResolvesExactly u)
    (h : s.solve c b = .ok solution) : r.Matches c b solution := by
  intro name
  have hrel := get?_of_solve h name
  generalize hget : b.get? name = found at hrel
  generalize solution.get? name = value at hrel
  cases hrel with
  | none => exact .none
  | @some a v hread =>
      refine .some ?_
      cases a with
      | unit u =>
          obtain ⟨m, hm, rfl⟩ := map_eq_ok_iff.1 hread
          have hu := hs.units.readUnit_atMost (hexact name (.unit u) u hget rfl)
          exact .unit (Reading.unit_eq_ok_iff.1 (hu m (mapError_eq_ok_iff.1 hm)))
      | type t =>
          obtain ⟨d, hd, rfl⟩ := map_eq_ok_iff.1 hread
          have ht := hs.readType_atMost fun u hu => hexact name (.type t) u hget hu
          exact .type (ht d (mapError_eq_ok_iff.1 hd))

end Store

theorem infer_eq_ok_iff {c : Catalog} {vars : List Param} {generic concrete : Scheme}
    {solution : Substitution} :
    infer c vars generic concrete = .ok solution ↔
      let (b, s) := Store.empty.bindFresh .empty vars
      ∃ e f, generic.toTerm b = .ok e ∧ concrete.toTerm .empty = .ok f ∧ (s.unify e f).result = .ok () ∧
        (s.unify e f).store.solve c b = .ok solution := by
  simp only [infer, bind_eq_ok_iff, mapError_eq_ok_iff]
  constructor
  · rintro ⟨e, he, f, hf, _, hunify, hsolve⟩
    exact ⟨e, f, he, hf, hunify, hsolve⟩
  · rintro ⟨e, f, he, hf, hunify, hsolve⟩
    exact ⟨e, he, f, hf, (), hunify, hsolve⟩

/-- No power is clamped on the way from the types to the solution, or when the types are made ground. -/
structure ExactRun (generic concrete : Scheme) (solution : Substitution) (b : TermBindings) (s : Store)
    (e f : Term) : Prop where
  /-- The variables of the types are replaced by numbered ones. -/
  expected : ∀ u, generic.HasUnit u → u.BindsExactly b.atom
  found : ∀ u, concrete.HasUnit u → u.BindsExactly (TermBindings.atom .empty)
  /-- At every point of the attempt, the units that come next are resolved. -/
  unify : ∀ w, Pending.Leads ⟨[.types none e f], s⟩ w → w.Exact
  /-- The values are read off. -/
  solve : ∀ name a u, b.get? name = some a → (s.unify e f).store.MeetsArg u a →
    (s.unify e f).store.ResolvesExactly u
  /-- The variables of the types are replaced by ground values. -/
  generic : ∀ u, generic.HasUnit u → u.BindsExactly solution.atom
  concrete : ∀ u, concrete.HasUnit u → u.BindsExactly (Substitution.atom .empty)

/-- No power is clamped when the solution is inferred and put into the types. -/
def InfersExactly (vars : List Param) (generic concrete : Scheme) (solution : Substitution) : Prop :=
  let (b, s) := Store.empty.bindFresh .empty vars
  ∀ e f, generic.toTerm b = .ok e → concrete.toTerm .empty = .ok f → ExactRun generic concrete solution b s e f

/-- The solution that is inferred makes the generic type the same ground type as the concrete one. -/
theorem infer_sound {c : Catalog} {vars : List Param} {generic concrete : Scheme} {d : GroundType}
    {solution : Substitution} (hgeneric : generic.Ordered) (hconcrete : concrete.Ordered)
    (hcomplete : generic.Complete) (hd : concrete.toGround .empty c = .ok d)
    (hinfer : infer c vars generic concrete = .ok solution)
    (hexact : InfersExactly vars generic concrete solution) : generic.toGround solution c = .ok d := by
  have hempty : ∀ entry ∈ (Bindings.empty : TermBindings).entries, ∀ m n, entry.2.IsVar m n := by
    intro entry hentry
    cases hentry
  have hbinds : (Store.empty.bindFresh .empty vars).2.Binds (Store.empty.bindFresh .empty vars).1 :=
    Store.Binds.bindFresh ⟨.empty, fun id => rfl, fun entry hentry => hempty entry hentry 0 0⟩ vars
  obtain ⟨e, f, he, hf, hunify, hsolve⟩ := infer_eq_ok_iff.1 hinfer
  have hrun := hexact e f he hf
  generalize Store.empty.bindFresh .empty vars = fresh at hbinds he hunify hsolve hrun
  obtain ⟨b, s⟩ := fresh
  obtain ⟨heregular, hebelow⟩ := Scheme.regular_and_below_of_toTerm hbinds.vars hgeneric hcomplete he
  obtain ⟨hfregular, hfbelow⟩ := Scheme.regular_and_below_of_toTerm
    (fun entry hentry => hempty entry hentry _ _) hconcrete (Scheme.complete_of_toGround hd) hf
  have hvalues : ∀ id t, s.typeValue? id = some t → t.Everywhere Term.Regular fun _ => True := by
    intro id t hvalue
    rw [hbinds.types id] at hvalue
    cases hvalue
  obtain ⟨r, hr, hsame⟩ := Store.exists_readBy_of_unify c hbinds.wellFormed hvalues heregular hebelow hfregular
    hfbelow hrun.unify hunify
  -- The concrete type has no variables, so its ground type is what its term is read as.
  have hmatches : r.Matches c .empty .empty := fun name => .none
  have hfound := hmatches.toGround hconcrete (fun u hu => ⟨hrun.found u hu, hrun.concrete u hu⟩) hf
  -- The variables of the generic type got the values that they are read as.
  have hexpected := (hr.matches_of_solve hrun.solve hsolve).toGround hgeneric
    (fun u hu => ⟨hrun.expected u hu, hrun.generic u hu⟩) he
  exact hexpected.backward d (hsame.backward d (hfound.forward d hd))

/-- Two fields share a unit variable, whose value is known from its square when it is met again, and a type
variable has the name of a declared type. -/
theorem infer_sound_of_shared_unit :
    let two : Exponent := ⟨2, by decide, by decide⟩
    let shape (a : Atom Name) (t : Scheme) : Scheme :=
      .record [⟨"span", .number ((Product.single a).raise two), true⟩, ⟨"step", .number (.single a), false⟩,
        ⟨"value", t, true⟩] true
    let generic := shape (.var "u") (.ident "Optional")
    let concrete := shape (.unit ⟨"m", "metre"⟩) (.primitive .text)
    let solution : Substitution :=
      ⟨[("Optional", .type (.primitive .text)), ("u", .unit (.single "m"))], by decide⟩
    infer .empty [⟨.type, "Optional"⟩, ⟨.unit, "u"⟩] generic concrete = .ok solution ∧
      ∃ d, concrete.toGround .empty .empty = .ok d ∧ generic.toGround solution .empty = .ok d := by
  intro two shape generic concrete solution
  have hordered : ∀ a t, t.Ordered → (shape a t).Ordered := by
    intro a t ht
    refine .record ?_ ?_
    · have hfirst : compare "span" "step" = .lt := by decide
      have hsecond : compare "span" "value" = .lt := by decide
      have hthird : compare "step" "value" = .lt := by decide
      simp [Ascending, hfirst, hsecond, hthird]
    · simp only [List.forall_mem_cons]
      exact ⟨.number _, .number _, ht, nofun⟩
  have hcomplete : generic.Complete := by
    simp [Scheme.Complete, generic, shape]
  have hunits : ∀ {a t} {P : UnitScheme → Prop}, (∀ u, ¬ t.HasUnit u) → P ((Product.single a).raise two) →
      P (.single a) → ∀ u, (shape a t).HasUnit u → P u := by
    intro a t P ht hspan hstep u hu
    have hcases : u = (Product.single a).raise two ∨ u = .single a ∨ t.HasUnit u := by
      simpa [Scheme.HasUnit, Scheme.units, shape] using hu
    rcases hcases with rfl | rfl | hu
    · exact hspan
    · exact hstep
    · exact absurd hu (ht u)
  have hident : ∀ u, ¬ (Scheme.ident "Optional").HasUnit u := by
    simp [Scheme.HasUnit, Scheme.units]
  have htext : ∀ u, ¬ (Scheme.primitive .text).HasUnit u := by
    simp [Scheme.HasUnit, Scheme.units]
  have hinfer : infer .empty [⟨.type, "Optional"⟩, ⟨.unit, "u"⟩] generic concrete = .ok solution := by
    dsimp only [two, shape, generic, concrete, solution]
    rfl
  refine ⟨hinfer, _, rfl, infer_sound (hordered _ _ (.ident _)) (hordered _ _ (.primitive _)) hcomplete rfl
    hinfer ?_⟩
  let b : TermBindings := ⟨[("Optional", .type (.var 0)), ("u", .unit (.single (.var 0)))], by decide⟩
  let lowered (a : Atom VarId) (t : Term) : Term :=
    .record [⟨"span", .number ((Product.single a).raise two), true⟩, ⟨"step", .number (.single a), false⟩,
      ⟨"value", t, true⟩] true
  let expected := lowered (.var 0) (.var 0)
  let found := lowered (.unit ⟨"m", "metre"⟩) (.primitive .text)
  have hexpected : generic.toTerm b = .ok expected := by
    dsimp only [two, shape, generic, b, lowered, expected]
    rfl
  have hfound : concrete.toTerm .empty = .ok found := by
    dsimp only [two, shape, concrete, lowered, found]
    rfl
  have hfresh : Store.empty.bindFresh .empty [⟨.type, "Optional"⟩, ⟨.unit, "u"⟩] =
      (b, ⟨#[none], #[none]⟩) := rfl
  rw [InfersExactly, hfresh]
  intro e f he hf
  cases hexpected.symm.trans he
  cases hfound.symm.trans hf
  have hattempt : Pending.exactWithin 7 ⟨[.types none expected found], ⟨#[none], #[none]⟩⟩ = true := by
    dsimp only [two, lowered, expected, found]
    rfl
  have hstore : (Store.unify ⟨#[none], #[none]⟩ expected found).store =
      ⟨#[some (.primitive .text)], #[some (.single (.unit ⟨"m", "metre"⟩))]⟩ := by
    dsimp only [two, lowered, expected, found]
    rfl
  refine ⟨hunits hident (fun _ _ => rfl) fun _ _ => rfl, hunits htext (fun _ _ => rfl) fun _ _ => rfl,
    fun w => Pending.exact_of_exactWithin hattempt, ?_, hunits hident (fun _ _ => rfl) fun _ _ => rfl,
    hunits htext (fun _ _ => rfl) fun _ _ => rfl⟩
  intro name a v ha hv
  rw [hstore] at hv ⊢
  have hmem := Bindings.get?_eq_some ha
  simp only [b, List.mem_cons, List.not_mem_nil, or_false, Prod.mk.injEq] at hmem
  rcases hmem with ⟨-, rfl⟩ | ⟨-, rfl⟩
  · obtain ⟨t, ht, hv⟩ := Store.Meets.exists_of_var hv
    cases ht
    cases hv with
    | here h =>
        cases h with
        | here h => cases h
        | inside hs => cases hs
    | value hid =>
        cases hid with
        | inside hs => cases hs
  · cases hv
    rfl

end Tabula
