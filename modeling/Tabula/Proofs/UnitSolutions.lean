import Mathlib.Algebra.Module.Torsion.Pi
import Tabula.Proofs.ExactPowers
import Tabula.Proofs.StoreInvariant
import Tabula.Proofs.UnitValues

/-!
# Solutions of equations between units

An equation between two units is solved by units for their variables.  Units that are put in the place of
variables are told by the powers of their atoms here, and these are integers of any size, so that nothing is
clamped or refused when a unit is put in place.

`Store.unifyUnits` gives a value to one variable, and this is a most general solution: the units that solve the
equation are exactly those that give the variable what they give to its value.

What is solved exactly is not always read back exactly.  The powers of a unit are clamped when it is resolved, so
an equation that was solved may fail to hold in the store that solves it.  It does hold if no power is out of
range when the two sides are resolved, before and after.
-/

namespace Tabula

/-- Atoms that are not told apart keep having the same value if other values are given to the variables. -/
theorem Atom.respects_withVars {G : Type} [AddCommGroup G] {val : Atom VarId → G} (h : Product.Respects val)
    (vars : VarId → G) : Product.Respects (Atom.withVars val vars) := by
  intro a b hab
  cases a with
  | var id => rw [Atom.compare_var_eq_iff.1 hab]
  | unit w =>
      obtain ⟨w', rfl, -⟩ := Atom.compare_unit_eq_iff.1 hab
      exact h _ _ hab

namespace UnitTerm

variable {e f q u w : UnitTerm} {x : VarId} {σ : VarId → Atom VarId → Int}

/-- The exact powers of a unit in which each variable was replaced by the unit with the powers that `σ` gives. -/
def powersUnder (σ : VarId → Atom VarId → Int) (u : UnitTerm) : Atom VarId → Int :=
  u.eval (Atom.withVars Product.unitPower σ)

/-- The variable `x` is replaced by `w`, and all other variables by themselves. -/
def replacing (x : VarId) (w : UnitTerm) (y : VarId) (a : Atom VarId) : Int :=
  if y = x then (w.power a).val else Product.unitPower (.var y) a

/-- The unit `w` for the variable `x` is what the equation between `e` and `f` comes to. -/
structure MostGeneralSolution (e f : UnitTerm) (x : VarId) (w : UnitTerm) : Prop where
  occurs : Atom.var x ∈ e.atoms ∨ Atom.var x ∈ f.atoms
  absent : Atom.var x ∉ w.atoms
  solves : e.powersUnder (replacing x w) = f.powersUnder (replacing x w)
  mostGeneral : ∀ σ, e.powersUnder σ = f.powersUnder σ → σ x = w.powersUnder σ

/-- A unit keeps its powers if a variable is replaced that is not in it. -/
theorem powersUnder_replacing (h : Atom.var x ∉ u.atoms) (a : Atom VarId) :
    u.powersUnder (replacing x w) a = (u.power a).val := by
  rw [← Product.eval_unitPower]
  refine congrFun (Product.eval_congr fun b hb => ?_) a
  cases b with
  | unit _ => rfl
  | var y =>
      have hne : y ≠ x := by
        rintro rfl
        exact h hb
      funext c
      show replacing x w y c = Product.unitPower (.var y) c
      rw [replacing, if_neg hne]

theorem powersUnder_of_divide? (h : e.divide? f = some q) :
    q.powersUnder σ = e.powersUnder σ - f.powersUnder σ :=
  Product.eval_of_divide? (Atom.respects_withVars Product.respects_unitPower σ) h

/-- Units solve an equation exactly if they give the variable that it was solved for what they give to its
value. -/
theorem powersUnder_eq_iff_of_solve? (hq : e.divide? f = some q) (hsolve : solve? q = some (x, w)) :
    e.powersUnder σ = f.powersUnder σ ↔ σ x = w.powersUnder σ := by
  obtain ⟨p, hpivot, hvalue⟩ := solve?_eq_some_iff.1 hsolve
  have hmultiple : q.powersUnder σ = p.val • (σ x - w.powersUnder σ) := eval_of_solveFor? hpivot hvalue
  have hp : p.val ≠ 0 := by
    rw [ne_eq, Exponent.val_eq_zero_iff]
    exact q.nonzero _ (of_pivot? hpivot).1
  -- The power of the variable is not zero, and a multiple of powers is zero only if they are.
  calc e.powersUnder σ = f.powersUnder σ
      ↔ q.powersUnder σ = 0 := by rw [powersUnder_of_divide? hq, sub_eq_zero]
    _ ↔ σ x - w.powersUnder σ = 0 := by rw [hmultiple, smul_eq_zero, or_iff_right hp]
    _ ↔ σ x = w.powersUnder σ := sub_eq_zero

theorem mostGeneralSolution_of_solve? (hq : e.divide? f = some q) (hsolve : solve? q = some (x, w)) :
    MostGeneralSolution e f x w := by
  obtain ⟨hx, hw⟩ := of_solve? hsolve
  have habsent : Atom.var x ∉ w.atoms := fun hmem => (hw _ hmem).2 rfl
  refine ⟨Product.mem_atoms_of_divide? hq hx, habsent, ?_, ?_⟩
  · refine (powersUnder_eq_iff_of_solve? hq hsolve).2 ?_
    funext a
    rw [powersUnder_replacing habsent, replacing, if_pos rfl]
  · intro σ hσ
    exact (powersUnder_eq_iff_of_solve? hq hsolve).1 hσ

end UnitTerm

namespace Store

variable {s s' : Store} {e f w : UnitTerm} {x : VarId}

/-- The unit variable `x`, which had no value, gets the value `w`, and nothing else is changed. -/
structure AssignsUnit (s s' : Store) (x : VarId) (w : UnitTerm) : Prop where
  before : s.unitValue? x = none
  after : s'.unitValue? x = some w
  others : ∀ y, y ≠ x → s'.unitValue? y = s.unitValue? y
  size : s'.units.size = s.units.size
  types : s'.types = s.types

theorem assignsUnit_assignUnit (hx : x < s.units.size) (hnone : s.unitValue? x = none) :
    s.AssignsUnit (s.assignUnit x w) x w where
  before := hnone
  after := by rw [unitValue?_assignUnit hx, if_pos rfl]
  others y hy := by rw [unitValue?_assignUnit hx, if_neg hy]
  size := by simp [assignUnit]
  types := rfl

/-- A change gives a value to one variable only. -/
theorem AssignsUnit.unique {y : VarId} {w' : UnitTerm} (h : s.AssignsUnit s' x w) (h' : s.AssignsUnit s' y w') :
    x = y ∧ w = w' := by
  have hxy : x = y := by
    by_contra hne
    have hsame := h'.others x hne
    rw [h.after, h.before] at hsame
    cases hsame
  subst hxy
  exact ⟨rfl, Option.some.inj (h.after.symm.trans h'.after)⟩

/-- Two units are made equal by changing nothing if they are equal already, and otherwise by a most general
solution for one variable in terms of variables that have no value. -/
theorem unifyUnits_solves (hs : s.Reachable) (he : UnitTerm.Below s.units.size e)
    (hf : UnitTerm.Below s.units.size f) (h : s.unifyUnits e f = .ok s') :
    (s.resolve e == s.resolve f) = true ∧ s' = s ∨
      ∃ x w, s.AssignsUnit s' x w ∧ UnitTerm.MostGeneralSolution (s.resolve e) (s.resolve f) x w ∧
        ∀ y, Atom.var y ∈ w.atoms → s.unitValue? y = none := by
  obtain ⟨q, hq, ⟨hone, rfl⟩ | ⟨-, x, w, hsolve, rfl⟩⟩ := unifyUnits_eq_ok_iff.1 h
  · exact .inl ⟨(Product.isOne_of_divide? hq).1 hone, rfl⟩
  · obtain ⟨hx, hnone, hw⟩ := hs.wellFormed.open_of_solve? he hf hq hsolve
    refine .inr ⟨x, w, assignsUnit_assignUnit hx hnone, ?_, fun y hy => (hw y hy).2.1⟩
    exact UnitTerm.mostGeneralSolution_of_solve? hq hsolve

/-- The variable `0` has the value `?1*m`, so the equation `?0^2*?2^4 = s^6` is one for `?1`, whose power divides all
others. -/
theorem unifyUnits_solves_of_resolved_variable :
    let m : Atom VarId := .unit ⟨"m", "metre"⟩
    let sec : Atom VarId := .unit ⟨"s", "second"⟩
    let s : Store := ⟨#[], #[some (.ofFactors [(.var 1, 1), (m, 1)]), none, none]⟩
    let e : UnitTerm := .ofFactors [(.var 0, .clamp 2), (.var 2, .clamp 4)]
    let f : UnitTerm := .ofFactors [(sec, .clamp 6)]
    let w : UnitTerm := .ofFactors [(.var 2, .clamp (-2)), (m, .clamp (-1)), (sec, .clamp 3)]
    s.Reachable ∧ s.unifyUnits e f = .ok (s.assignUnit 1 w) ∧
      UnitTerm.MostGeneralSolution (s.resolve e) (s.resolve f) 1 w := by
  intro m sec s e f w
  have hfresh : Store.Reachable ⟨#[], #[none, none, none]⟩ :=
    ((reachable_empty.perform .freshUnit trivial).perform .freshUnit trivial).perform .freshUnit trivial
  have hassigned : Store.perform ⟨#[], #[none, none, none]⟩
      (.unifyUnits (.ofFactors [(.var 0, 1)]) (.ofFactors [(.var 1, 1), (m, 1)])) = s := by
    simp only [s, m]
    rfl
  have hreachable : s.Reachable := by
    rw [← hassigned]
    refine hfresh.perform _ ⟨?_, ?_⟩
    · exact UnitTerm.below_ofFactors (by simp)
    · exact UnitTerm.below_ofFactors (by simp [m])
  have he : UnitTerm.Below s.units.size e := UnitTerm.below_ofFactors (by simp [s])
  have hf : UnitTerm.Below s.units.size f := UnitTerm.below_ofFactors (by simp [sec])
  have hok : s.unifyUnits e f = .ok (s.assignUnit 1 w) := by
    simp only [s, e, f, w, m, sec]
    rfl
  have hassigns : s.AssignsUnit (s.assignUnit 1 w) 1 w := assignsUnit_assignUnit (by simp [s]) rfl
  refine ⟨hreachable, hok, ?_⟩
  obtain ⟨-, hsame⟩ | ⟨x, w', hassigns', hsolution, -⟩ := unifyUnits_solves hreachable he hf hok
  · have hafter := hassigns.after
    rw [hsame, hassigns.before] at hafter
    cases hafter
  · obtain ⟨rfl, rfl⟩ := hassigns.unique hassigns'
    exact hsolution

/-- Units that were made equal are the same when they are resolved afterwards, and making them equal again changes
nothing, if all powers fit when the two units are resolved in the store before and in the store after. -/
theorem resolve_beq_of_unifyUnits (hs : s.Reachable) (he : UnitTerm.Below s.units.size e)
    (hf : UnitTerm.Below s.units.size f) (h : s.unifyUnits e f = .ok s')
    (hebefore : s.ResolvesExactly e) (hfbefore : s.ResolvesExactly f)
    (heafter : s'.ResolvesExactly e) (hfafter : s'.ResolvesExactly f) :
    (s'.resolve e == s'.resolve f) = true ∧ s'.unifyUnits e f = .ok s' := by
  have hs' : s'.WellFormed := (hs.wellFormed.unifyUnits he hf h).1
  have hsame : (s'.resolve e == s'.resolve f) = true := by
    refine hs'.resolve_beq heafter hfafter fun val hval hevaluated => ?_
    exact hevaluated.eval_eq_of_unifyUnits hval hs.wellFormed he hf hebefore hfbefore h
  exact ⟨hsame, unifyUnits_of_beq hsame⟩

/-- Powers at both ends of the range fit here: `?0^2*m^-2147483648 = m^-2` is solved by `m^1073741823`. -/
theorem resolve_beq_of_unifyUnits_of_extreme_powers :
    let m : Atom VarId := .unit ⟨"m", "metre"⟩
    let s : Store := ⟨#[], #[none]⟩
    let e : UnitTerm := .ofFactors [(.var 0, .clamp 2), (m, .clamp (-2147483648))]
    let f : UnitTerm := .ofFactors [(m, .clamp (-2))]
    let s' : Store := ⟨#[], #[some (.ofFactors [(m, .clamp 1073741823)])]⟩
    s.Reachable ∧ s.unifyUnits e f = .ok s' ∧ (s'.resolve e == s'.resolve f) = true ∧
      s'.unifyUnits e f = .ok s' := by
  intro m s e f s'
  have hreachable : s.Reachable := reachable_empty.perform .freshUnit trivial
  have he : UnitTerm.Below s.units.size e := UnitTerm.below_ofFactors (by simp [s, m])
  have hf : UnitTerm.Below s.units.size f := UnitTerm.below_ofFactors (by simp [m])
  have hok : s.unifyUnits e f = .ok s' := by
    simp only [s, e, f, s', m]
    rfl
  have hexact : s.ResolvesExactly e ∧ s.ResolvesExactly f ∧ s'.ResolvesExactly e ∧ s'.ResolvesExactly f := by
    simp only [s, e, f, s', m]
    exact ⟨rfl, rfl, rfl, rfl⟩
  obtain ⟨hebefore, hfbefore, heafter, hfafter⟩ := hexact
  exact ⟨hreachable, hok, resolve_beq_of_unifyUnits hreachable he hf hok hebefore hfbefore heafter hfafter⟩

/-- The equation `?0^2*m^-2147483648 = 1` is solved by `m^1073741824`, but the square of this unit is clamped when the
left side is resolved: what is found there is `m^-1`, and making the two sides equal again fails. -/
theorem resolve_ne_after_unifyUnits :
    let m : Atom VarId := .unit ⟨"m", "metre"⟩
    let s : Store := ⟨#[], #[none]⟩
    let e : UnitTerm := .ofFactors [(.var 0, .clamp 2), (m, .clamp (-2147483648))]
    let s' : Store := ⟨#[], #[some (.ofFactors [(m, .clamp 1073741824)])]⟩
    let rest : UnitTerm := .ofFactors [(m, .clamp (-1))]
    s.Reachable ∧ UnitTerm.Below s.units.size e ∧ s.unifyUnits e .one = .ok s' ∧
      s'.resolve e = rest ∧ (s'.resolve e == s'.resolve .one) = false ∧
      s'.unifyUnits e .one = .error (.unitMismatch rest .one) := by
  intro m s e s' rest
  have he : UnitTerm.Below s.units.size e := UnitTerm.below_ofFactors (by simp [s, m])
  refine ⟨reachable_empty.perform .freshUnit trivial, he, ?_⟩
  simp only [s, e, s', rest, m]
  exact ⟨rfl, rfl, rfl, rfl⟩

end Store

end Tabula
