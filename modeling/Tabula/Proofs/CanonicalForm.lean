import Mathlib.Data.String.Basic
import Tabula.Proofs.ClampedPowers
import Tabula.Proofs.GrammarReading
import Tabula.Proofs.MachineDivision
import Tabula.Proofs.SchemeParts

/-!
# The canonical form of units

Units are built on three levels, by arithmetic on one level and by passing from one level to another; those that are
read from a text are built by arithmetic.  `UnitLevel.Built` lists all ways to come by a unit and says for each of
them, as a function from atoms to integers, which powers the unit should have.  What is stored is then determined: the
atoms whose power is not zero, each of them once, in the order of atoms.  So units are equal if they should have the
same powers.

The order of atoms is written out here for each level, without reference to how the program compares them.
-/

namespace Tabula

/-- Variables come before declared units; variables are ordered among themselves, units by their names. -/
def Atom.Before {ν : Type} [LT ν] : Atom ν → Atom ν → Prop
  | .var v, .var w => v < w
  | .var _, .unit _ => True
  | .unit _, .var _ => False
  | .unit u, .unit w => u.name < w.name

/-- The same variable, or units of the same name. -/
def Atom.Same {ν : Type} : Atom ν → Atom ν → Prop
  | .var v, .var w => v = w
  | .var _, .unit _ => False
  | .unit _, .var _ => False
  | .unit u, .unit w => u.name = w.name

/-- The levels on which there are units. -/
inductive UnitLevel where
  /-- Units without variables. -/
  | ground
  /-- Units that may mention variables by name. -/
  | written
  /-- Units that may mention numbered variables. -/
  | sought

namespace UnitLevel

/-- The atoms of units on a level. -/
abbrev Atom : UnitLevel → Type
  | ground => Name
  | written => Tabula.Atom Name
  | sought => Tabula.Atom VarId

instance (l : UnitLevel) : Ord l.Atom :=
  match l with
  | ground => inferInstanceAs (Ord Name)
  | written => inferInstanceAs (Ord (Tabula.Atom Name))
  | sought => inferInstanceAs (Ord (Tabula.Atom VarId))

instance (l : UnitLevel) : Std.TransOrd l.Atom :=
  match l with
  | ground => inferInstanceAs (Std.TransOrd Name)
  | written => inferInstanceAs (Std.TransOrd (Tabula.Atom Name))
  | sought => inferInstanceAs (Std.TransOrd (Tabula.Atom VarId))

/-- The order of the atoms on a level. -/
def Before : (l : UnitLevel) → l.Atom → l.Atom → Prop
  | ground, n, m => n < m
  | written, a, b => Tabula.Atom.Before a b
  | sought, a, b => Tabula.Atom.Before a b

/-- Atoms that stand for the same thing. -/
def Same : (l : UnitLevel) → l.Atom → l.Atom → Prop
  | ground, n, m => n = m
  | written, a, b => Tabula.Atom.Same a b
  | sought, a, b => Tabula.Atom.Same a b

open Exponent (saturate saturatedSum)

/-- The unit is built by some combination of operations, after which every atom should have the given power. -/
inductive Built : (l : UnitLevel) → Product l.Atom → (l.Atom → Int) → Prop where
  | one {l : UnitLevel} : Built l .one fun _ => 0
  | single {l : UnitLevel} (a : l.Atom) : Built l (.single a) (Product.unitPower a)
  | ofFactors {l : UnitLevel} (fs : List (l.Atom × Exponent)) :
      Built l (.ofFactors fs) fun a => saturatedSum (fs.map fun f => f.2.val * Product.unitPower f.1 a)
  | times {l : UnitLevel} {u v : Product l.Atom} {d e : l.Atom → Int} (hu : Built l u d) (hv : Built l v e) :
      Built l (u.times v) fun a => saturate (d a + e a)
  | raise {l : UnitLevel} {u : Product l.Atom} {d : l.Atom → Int} (hu : Built l u d) (p : Exponent) :
      Built l (u.raise p) fun a => saturate (d a * p.val)
  | divide {l : UnitLevel} {u v : Product l.Atom} {d e : l.Atom → Int} (hu : Built l u d) (hv : Built l v e) :
      Built l (u.divide v) fun a => saturate (d a + saturate (-e a))
  | times? {l : UnitLevel} {u v w : Product l.Atom} {d e : l.Atom → Int} (hu : Built l u d) (hv : Built l v e)
      (hw : u.times? v = some w) : Built l w fun a => d a + e a
  | raise? {l : UnitLevel} {u w : Product l.Atom} {d : l.Atom → Int} {p : Exponent} (hu : Built l u d)
      (hw : u.raise? p = some w) : Built l w fun a => d a * p.val
  | divide? {l : UnitLevel} {u v w : Product l.Atom} {d e : l.Atom → Int} (hu : Built l u d) (hv : Built l v e)
      (hw : u.divide? v = some w) : Built l w fun a => d a - e a
  | divideByInverse? {l : UnitLevel} {u v w : Product l.Atom} {d e : l.Atom → Int} (hu : Built l u d)
      (hv : Built l v e) (hw : u.divideByInverse? v = some w) : Built l w fun a => d a - e a
  | liftToWritten {m : Measure} {d : Name → Int} (hm : Built ground m d) :
      Built written m.lift (Measure.liftedPowers d)
  | liftToSought {m : Measure} {d : Name → Int} (hm : Built ground m d) :
      Built sought m.lift (Measure.liftedPowers d)
  | toMeasure? {u : UnitTerm} {m : Measure} {d : Tabula.Atom VarId → Int} (hu : Built sought u d)
      (hm : UnitTerm.toMeasure? u = some m) : Built ground m fun n => d (.unit (.named n))
  | toMeasure {u : UnitScheme} {m : Measure} {d : Tabula.Atom Name → Int} {s : Substitution} (hu : Built written u d)
      (hm : UnitScheme.toMeasure s u = .ok m) :
      Built ground m fun n => saturatedSum (u.atoms.map fun a => saturate (d a * s.atomPowers a n))
  | toTerm {u : UnitScheme} {v : UnitTerm} {d : Tabula.Atom Name → Int} {b : TermBindings} (hu : Built written u d)
      (hv : UnitScheme.toTerm b u = .ok v) :
      Built sought v fun c => saturatedSum (u.atoms.map fun a => saturate (d a * b.atomPowers a c))
  | resolve {u : UnitTerm} {d : Tabula.Atom VarId → Int} (hu : Built sought u d) (s : Store) :
      Built sought (s.resolve u) (s.resolvedPowers s.units.size u)

/-- The factors are the powers that are not zero, each of them once and in order. -/
structure Canonical (l : UnitLevel) (fs : List (l.Atom × Exponent)) (e : l.Atom → Int) : Prop where
  ordered : fs.Pairwise fun f g => l.Before f.1 g.1
  nonzero : ∀ f ∈ fs, f.2.val ≠ 0
  powers : ∀ f ∈ fs, f.2.val = e f.1
  once : ∀ a, e a ≠ 0 ↔ ∃! f, f ∈ fs ∧ l.Same a f.1

end UnitLevel

section Order

variable {ν : Type}

theorem Atom.compare_lt_iff [LT ν] [Ord ν] (h : ∀ v w : ν, compare v w = .lt ↔ v < w) (a b : Atom ν) :
    compare a b = .lt ↔ a.Before b := by
  cases a with
  | var v =>
      cases b with
      | var w => exact h v w
      | unit w => exact iff_of_true rfl trivial
  | unit u =>
      cases b with
      | var w => exact iff_of_false (fun h => by cases h) not_false
      | unit w => exact compare_lt_iff_lt (a := u.name)

theorem Atom.compare_eq_iff_same [Ord ν] [Std.LawfulEqOrd ν] (a b : Atom ν) : compare a b = .eq ↔ a.Same b := by
  cases a with
  | var v =>
      cases b with
      | var w => exact Std.compare_eq_iff_eq (a := v)
      | unit w => exact iff_of_false (fun h => by cases h) not_false
  | unit u =>
      cases b with
      | var w => exact iff_of_false (fun h => by cases h) not_false
      | unit w => exact Std.compare_eq_iff_eq (a := u.name)

namespace UnitLevel

variable {l : UnitLevel}

theorem compare_lt_iff (a b : l.Atom) : compare a b = .lt ↔ l.Before a b := by
  cases l with
  | ground => exact compare_lt_iff_lt (a := (a : Name))
  | written => exact Tabula.Atom.compare_lt_iff (fun _ _ => compare_lt_iff_lt) a b
  | sought => exact Tabula.Atom.compare_lt_iff (fun _ _ => Nat.compare_eq_lt) a b

theorem compare_eq_iff (a b : l.Atom) : compare a b = .eq ↔ l.Same a b := by
  cases l with
  | ground => exact Std.compare_eq_iff_eq (a := (a : Name))
  | written => exact Tabula.Atom.compare_eq_iff_same a b
  | sought => exact Tabula.Atom.compare_eq_iff_same a b

/-- What is said of the factors of a unit can be said of its atoms and their powers. -/
theorem map_factors {β : Type} {u : Product l.Atom} {d : l.Atom → Int} (h : ∀ a, (u.power a).val = d a)
    (g : Int → l.Atom → β) : (u.factors.map fun f => g f.2.val f.1) = u.atoms.map fun a => g (d a) a := by
  rw [Product.atoms, List.map_map]
  refine List.map_congr_left fun f hf => ?_
  rw [Function.comp_apply, ← h f.1, Product.power_of_mem hf]

/-- A unit has the powers that its construction gives it. -/
theorem Built.power {u : Product l.Atom} {e : l.Atom → Int} (h : Built l u e) (a : l.Atom) :
    (u.power a).val = e a := by
  induction h with
  | one => exact Product.power_one a
  | single b => exact Product.power_single b a
  | ofFactors fs => exact Product.power_ofFactors fs a
  | times _ _ ihu ihv =>
      rw [Product.power_times, ihu, ihv]
      rfl
  | raise _ p ih =>
      rw [Product.power_raise, ih]
      rfl
  | divide _ _ ihu ihv => rw [Product.power_divide, ihu, ihv]
  | times? _ _ hw ihu ihv => rw [Product.power_of_times? hw, ihu, ihv]
  | raise? _ hw ih => rw [Product.power_of_raise? hw, ih]
  | divide? _ _ hw ihu ihv => simpa only [ihu, ihv, Product.difference] using Product.power_of_divide? hw a
  | divideByInverse? _ _ hw ihu ihv => rw [Product.power_of_divideByInverse? hw, ihu, ihv]
  | liftToWritten _ ih | liftToSought _ ih =>
      rw [← funext ih]
      exact Measure.power_lift _ a
  | toMeasure? _ hm ih => exact (Measure.power_of_toMeasure? hm a).trans (ih _)
  | @toMeasure _ _ _ s _ hm ih =>
      refine (UnitScheme.power_of_toMeasure hm a).trans (congrArg Exponent.saturatedSum ?_)
      exact map_factors ih fun p c => Exponent.saturate (p * s.atomPowers c a)
  | @toTerm _ _ _ b _ hv ih =>
      refine (UnitScheme.power_of_toTerm hv a).trans (congrArg Exponent.saturatedSum ?_)
      exact map_factors ih fun p c => Exponent.saturate (p * b.atomPowers c a)
  | resolve _ s => exact s.power_resolveWithin _ _ a

/-- No two factors of a unit have the same atom. -/
theorem eq_of_same {u : Product l.Atom} {f g : l.Atom × Exponent} (hf : f ∈ u.factors) (hg : g ∈ u.factors)
    (h : compare f.1 g.1 = .eq) : f = g := by
  -- Two factors stand in one order or in the other one, and in both cases their atoms differ.
  have hne : ∀ {f g : l.Atom × Exponent}, compare f.1 g.1 = .lt → compare f.1 g.1 ≠ .eq := by
    intro f g hlt
    simp [hlt]
  have hpairwise : u.factors.Pairwise fun f g => compare f.1 g.1 = .eq → f = g :=
    u.ordered.imp fun hlt heq => absurd heq (hne hlt)
  have hflipped : u.factors.Pairwise fun f g => compare g.1 f.1 = .eq → g = f :=
    u.ordered.imp fun hlt heq => absurd (Std.OrientedCmp.eq_symm heq) (hne hlt)
  exact hpairwise.forall_of_forall_of_flip (fun _ _ _ => rfl) hflipped hf hg h

theorem Built.canonical {u : Product l.Atom} {e : l.Atom → Int} (h : Built l u e) : l.Canonical u.factors e := by
  have hpowers : ∀ f ∈ u.factors, f.2.val = e f.1 := by
    intro f hf
    rw [← h.power f.1, Product.power_of_mem hf]
  refine ⟨u.ordered.imp fun hlt => (compare_lt_iff _ _).1 hlt, fun f hf => ?_, hpowers, fun a => ?_⟩
  · exact mt Exponent.val_eq_zero_iff.1 (u.nonzero f hf)
  · rw [← h.power a, Ne, Exponent.val_eq_zero_iff]
    constructor
    · intro hne
      obtain ⟨b, hb, hmem⟩ := Product.mem_of_powerIn_ne_zero hne
      refine ⟨_, ⟨hmem, (compare_eq_iff _ _).1 hb⟩, ?_⟩
      rintro g ⟨hg, hag⟩
      exact eq_of_same hg hmem (Std.TransCmp.eq_trans (Std.OrientedCmp.eq_symm ((compare_eq_iff _ _).2 hag)) hb)
    · rintro ⟨f, ⟨hf, haf⟩, -⟩
      have hsame : u.power a = u.power f.1 := Product.powerIn_congr ((compare_eq_iff _ _).2 haf)
      rw [hsame, Product.power_of_mem hf]
      exact u.nonzero f hf

/-- Units that should have the same powers are equal. -/
theorem Built.beq_iff {u v : Product l.Atom} {d e : l.Atom → Int} (hu : Built l u d) (hv : Built l v e) :
    u == v ↔ ∀ a, d a = e a := by
  rw [Product.beq_iff_difference]
  refine forall_congr' fun a => ?_
  rw [Product.difference, hu.power, hv.power, Int.sub_eq_zero]

end UnitLevel

end Order

/-- The parts of a written unit. -/
inductive UnitPart where
  /-- A product of quotients. -/
  | product
  | quotient
  | single

/-- The tokens spell a part of a unit in which every atom has the given power.  Nothing is said about ranges. -/
inductive Spells (units : UnitCatalog) : UnitPart → List Token → (Atom Name → Int) → Prop where
  | oneQuotient {ts : List Token} {e : Atom Name → Int} (h : Spells units .quotient ts e) : Spells units .product ts e
  | times {ts ts' : List Token} {d e : Atom Name → Int} (hu : Spells units .product ts d)
      (hv : Spells units .quotient ts' e) : Spells units .product (ts ++ .times :: ts') fun a => d a + e a
  | oneSingle {ts : List Token} {e : Atom Name → Int} (h : Spells units .single ts e) : Spells units .quotient ts e
  | divided {ts ts' : List Token} {d e : Atom Name → Int} (hu : Spells units .single ts d)
      (hv : Spells units .single ts' e) : Spells units .quotient (ts ++ .div :: ts') fun a => d a - e a
  | one : Spells units .single [.int 1] fun _ => 0
  | bracketed {ts : List Token} {e : Atom Name → Int} (h : Spells units .product ts e) :
      Spells units .single (.lparen :: ts ++ [.rparen]) e
  | firstPower {ts : List Token} {a : Atom Name} (h : Derives units ts (.atom a)) :
      Spells units .single ts (Product.unitPower a)
  | power {ts : List Token} {a : Atom Name} {p : Exponent} (h : Derives units ts (.atom a)) :
      Spells units .single (ts ++ [.pow, .int p]) fun b => Product.unitPower a b * p.val

section Reading

variable {units : UnitCatalog}

/-- The unit was built with the powers that some tokens spell. -/
def UnitScheme.BuiltAsSpelled (units : UnitCatalog) (part : UnitPart) (ts : List Token) (u : UnitScheme) : Prop :=
  ∃ e, Spells units part ts e ∧ UnitLevel.written.Built u e

/-- The unit is `1` or was built as spelled somewhere among the tokens. -/
def UnitScheme.BuiltWithin (units : UnitCatalog) (ts : List Token) (u : UnitScheme) : Prop :=
  u = .one ∨ ∃ part, part <:+: ts ∧ BuiltAsSpelled units .product part u

theorem UnitScheme.BuiltWithin.mono {ts ts' : List Token} {u : UnitScheme} (h : BuiltWithin units ts u)
    (hts : ts <:+: ts') : BuiltWithin units ts' u :=
  h.imp_right fun ⟨part, hpart, hbuilt⟩ => ⟨part, hpart.trans hts, hbuilt⟩

theorem Scheme.hasUnit_iff {u : UnitScheme} {t : Scheme} :
    HasUnit u t ↔ u ∈ t.units ∨ ∃ c ∈ t.children, HasUnit u c := by
  constructor
  · rintro ⟨p, hp, hu⟩
    rcases part_iff.1 hp with rfl | ⟨c, hc, hpc⟩
    · exact .inl hu
    · exact .inr ⟨c, hc, p, hpc, hu⟩
  · rintro (hu | ⟨c, hc, p, hpc, hu⟩)
    · exact ⟨t, .self, hu⟩
    · exact ⟨p, part_iff.2 (.inr ⟨c, hc, hpc⟩), hu⟩

/-- Every unit in the type was built as spelled somewhere among the tokens. -/
def Scheme.BuiltWithin (units : UnitCatalog) (ts : List Token) (t : Scheme) : Prop :=
  ∀ u, t.HasUnit u → UnitScheme.BuiltWithin units ts u

theorem Scheme.BuiltWithin.mono {ts ts' : List Token} {t : Scheme} (h : t.BuiltWithin units ts) (hts : ts <:+: ts') :
    t.BuiltWithin units ts' :=
  fun u hu => (h u hu).mono hts

theorem Scheme.BuiltWithin.of_parts {ts : List Token} {t : Scheme}
    (hunits : ∀ u ∈ t.units, UnitScheme.BuiltWithin units ts u) (hchildren : ∀ c ∈ t.children, c.BuiltWithin units ts) :
    t.BuiltWithin units ts := by
  intro u hu
  rcases hasUnit_iff.1 hu with hu | ⟨c, hc, hu⟩
  · exact hunits u hu
  · exact hchildren c hc u hu

/-- Every unit in the phrase was built as spelled by its tokens. -/
def Phrase.BuiltAsSpelled (units : UnitCatalog) (ts : List Token) : Phrase → Prop
  | .unit u => u.BuiltAsSpelled units .product ts
  | .quotient u => u.BuiltAsSpelled units .quotient ts
  | .single u => u.BuiltAsSpelled units .single ts
  | .atom _ => True
  | .type t => t.BuiltWithin units ts
  | .params ps => ∀ t ∈ ps, t.BuiltWithin units ts
  | .field f => f.type.BuiltWithin units ts
  | .fields fs _ => ∀ f ∈ fs, f.type.BuiltWithin units ts
  | .args as => (∀ u, .unit u ∈ as → UnitScheme.BuiltWithin units ts u) ∧ ∀ t, .type t ∈ as → t.BuiltWithin units ts

/-- What the grammar derives was built as spelled. -/
theorem Derives.builtAsSpelled {ts : List Token} {p : Phrase} (h : Derives units ts p) :
    p.BuiltAsSpelled units ts := by
  induction h with
  | oneQuotient _ ih =>
      obtain ⟨e, he, hu⟩ := ih
      exact ⟨e, .oneQuotient he, hu⟩
  | oneSingle _ ih =>
      obtain ⟨e, he, hu⟩ := ih
      exact ⟨e, .oneSingle he, hu⟩
  | times _ _ hw ihu ihv =>
      obtain ⟨d, hd, hu⟩ := ihu
      obtain ⟨e, he, hv⟩ := ihv
      exact ⟨_, .times hd he, .times? hu hv hw⟩
  | divided _ _ hw ihu ihv =>
      obtain ⟨d, hd, hu⟩ := ihu
      obtain ⟨e, he, hv⟩ := ihv
      exact ⟨_, .divided hd he, .divideByInverse? hu hv hw⟩
  | one => exact ⟨_, .one, .one⟩
  | bracketed _ ih =>
      obtain ⟨e, he, hu⟩ := ih
      exact ⟨e, .bracketed he, hu⟩
  | firstPower h => exact ⟨_, .firstPower h, .single _⟩
  | power h hw => exact ⟨_, .power h, .raise? (.single _) hw⟩
  | unitName | unitVar => trivial
  | primitive _ => exact .of_parts (by simp [Scheme.units]) (by simp [Scheme.children])
  | plainNumber => exact .of_parts (List.forall_mem_singleton.2 (.inl rfl)) (by simp [Scheme.children])
  | number _ ih =>
      refine .of_parts (List.forall_mem_singleton.2 ?_) (by simp [Scheme.children])
      exact .inr ⟨_, ⟨[.keyword .number, .lbrace], [.rbrace], rfl⟩, ih⟩
  | array _ ih =>
      refine .of_parts (by simp [Scheme.units]) (List.forall_mem_singleton.2 ?_)
      exact ih.mono ⟨[.lbracket], [.rbracket], rfl⟩
  | constant _ ih =>
      refine .of_parts (by simp [Scheme.units]) (List.forall_mem_singleton.2 ?_)
      exact ih.mono ⟨[.lparen, .lparen, .rparen, .arrow], [.rparen], rfl⟩
  | @function ts ts' _ _ _ _ ihp ihr =>
      refine .of_parts (by simp [Scheme.units]) (List.forall_mem_append.2 ⟨fun t ht => ?_, ?_⟩)
      · exact (ihp t ht).mono ⟨[.lparen, .lparen], .rparen :: .arrow :: ts' ++ [.rparen], by simp⟩
      · exact List.forall_mem_singleton.2
          (ihr.mono ⟨.lparen :: .lparen :: ts ++ [.rparen, .arrow], [.rparen], by simp⟩)
  | lastParam _ ih => exact List.forall_mem_singleton.2 ih
  | moreParams _ _ iht ihp =>
      refine List.forall_mem_cons.2 ⟨iht.mono (List.prefix_append _ _).isInfix, fun t ht => ?_⟩
      exact (ihp t ht).mono ((List.suffix_cons _ _).trans (List.suffix_append _ _)).isInfix
  | emptyRecord => exact .of_parts (by simp [Scheme.units]) (by simp [Scheme.children])
  | record _ _ ih =>
      refine .of_parts (by simp [Scheme.recordOf, Scheme.units]) fun c hc => ?_
      obtain ⟨f, hf, rfl⟩ := List.mem_map.1 hc
      exact (ih f (Ascending.mem_of_mem_ofList hf)).mono ⟨[.lparen], [.rparen], rfl⟩
  | dots => exact fun f hf => by cases hf
  | lastField _ ih => exact List.forall_mem_singleton.2 ih
  | moreFields _ _ ihf ihfs =>
      refine List.forall_mem_cons.2 ⟨ihf.mono (List.prefix_append _ _).isInfix, fun f hf => ?_⟩
      exact (ihfs f hf).mono ((List.suffix_cons _ _).trans (List.suffix_append _ _)).isInfix
  | required _ _ ih =>
      exact Scheme.BuiltWithin.mono ih ((List.suffix_cons _ _).trans (List.suffix_cons _ _)).isInfix
  | @optional t _ ts _ _ _ ih =>
      exact Scheme.BuiltWithin.mono ih (List.suffix_append [t, .question, .colon] ts).isInfix
  | @tagged n ts _ _ ih =>
      obtain ⟨hunits, htypes⟩ := ih
      have hwithin : ts <:+: .name n :: ts := (List.suffix_cons _ _).isInfix
      show (Scheme.tagged _ _).BuiltWithin units _
      unfold Scheme.tagged
      split
      · exact .of_parts (by simp [Scheme.units]) (by simp [Scheme.children])
      · refine .of_parts (fun u hu => ?_) fun t ht => ?_
        · obtain ⟨a, ha, hau⟩ := List.mem_filterMap.1 hu
          rw [Arg.unit?_eq_some_iff.1 hau] at ha
          exact (hunits u ha).mono hwithin
        · exact (htypes t (Scheme.mem_children_apply.1 ht)).mono hwithin
  | noArgs => exact ⟨by simp, by simp⟩
  | @typeArg ts ts' _ _ _ _ iht ihas =>
      obtain ⟨hunits, htypes⟩ := ihas
      have hwithin : ts' <:+: .lparen :: ts ++ .rparen :: ts' := ⟨.lparen :: ts ++ [.rparen], [], by simp⟩
      refine ⟨fun u hu => (hunits u (by simpa using hu)).mono hwithin, fun t ht => ?_⟩
      rcases List.mem_cons.1 ht with heq | ht
      · cases heq
        exact iht.mono ⟨[.lparen], .rparen :: ts', rfl⟩
      · exact (htypes t ht).mono hwithin
  | @unitArg ts ts' _ _ _ _ ihu ihas =>
      obtain ⟨hunits, htypes⟩ := ihas
      have hwithin : ts' <:+: .lparen :: .lbrace :: ts ++ .rbrace :: .rparen :: ts' :=
        ⟨.lparen :: .lbrace :: ts ++ [.rbrace, .rparen], [], by simp⟩
      refine ⟨fun u hu => ?_, fun t ht => (htypes t (by simpa using ht)).mono hwithin⟩
      rcases List.mem_cons.1 hu with heq | hu
      · cases heq
        exact .inr ⟨ts, ⟨[.lparen, .lbrace], .rbrace :: .rparen :: ts', rfl⟩, ihu⟩
      · exact (hunits u hu).mono hwithin

/-- Every unit is stored in canonical form, whatever operations it was built by: its factors are the powers that the
operations give it, without zeros, each atom once and in order.  So units are equal if they have the same powers.  The
units that are read from a text are built in this way, with the powers that the text spells.  When two units are made
equal, no division in 64-bit arithmetic fails. -/
theorem units_canonical :
    (∀ (l : UnitLevel) (u : Product l.Atom) (d : l.Atom → Int), l.Built u d →
      l.Canonical u.factors d ∧ ∀ v e, l.Built v e → (u == v ↔ ∀ a, d a = e a)) ∧
    (∀ (units : UnitCatalog) (source : String) (u : UnitScheme), UnitScheme.parse units source = .ok u →
      ∃ ls, Lexeme.readAll source = .ok ls ∧ u.BuiltAsSpelled units .product (ls.map Lexeme.token)) ∧
    (∀ (units : UnitCatalog) (source : String) (t : Scheme), Scheme.parse units source = .ok t →
      ∃ ls, Lexeme.readAll source = .ok ls ∧ t.BuiltWithin units (ls.map Lexeme.token)) ∧
    ∀ (s : Store) (expected found : UnitTerm),
      s.machineUnifyUnits? expected found = some (s.unifyUnits expected found) := by
  refine ⟨fun l u d hu => ⟨hu.canonical, fun v e hv => hu.beq_iff hv⟩, fun units source u h => ?_,
    fun units source t h => ?_, Store.machineUnifyUnits?_eq⟩
  · obtain ⟨ls, hls, hderives⟩ := UnitScheme.parse_eq_ok_iff.1 h
    exact ⟨ls, hls, hderives.builtAsSpelled⟩
  · obtain ⟨ls, hls, hderives⟩ := Scheme.parse_eq_ok_iff.1 h
    exact ⟨ls, hls, hderives.builtAsSpelled⟩

/-- The powers of `s/s` cancel, and the least power is no longer the inverse of the greatest after it was clamped. -/
theorem units_canonical_of_cancelled_powers :
    UnitScheme.parse .builtin "s/s" = .ok .one ∧
    (∃ ls, Lexeme.readAll "s/s" = .ok ls ∧ UnitScheme.BuiltAsSpelled .builtin .product (ls.map Lexeme.token) .one) ∧
    (let least : Measure := (Product.single "s").raise (.clamp (-2147483648))
    UnitLevel.ground.Canonical (least.times (least.raise .negOne)).factors fun a =>
      Exponent.saturate (Exponent.saturate (Product.unitPower "s" a * -2147483648) +
        Exponent.saturate (Exponent.saturate (Product.unitPower "s" a * -2147483648) * -1))) := by
  have hparse : UnitScheme.parse .builtin "s/s" = .ok .one := by
    refine UnitScheme.parse_eq_ok_iff.2 ⟨[⟨.name "s", "s", ⟨0, 1⟩⟩, ⟨.div, "/", ⟨1, 2⟩⟩, ⟨.name "s", "s", ⟨2, 3⟩⟩],
      toOption_eq_some_iff.1 (by decide +kernel), .oneQuotient ?_⟩
    have hs : Derives .builtin [.name "s"] (.single (.single (.unit ⟨"s", "second"⟩))) :=
      .firstPower (.unitName rfl rfl)
    exact .divided hs hs rfl
  refine ⟨hparse, units_canonical.2.1 _ _ _ hparse, ?_⟩
  intro least
  have hleast := UnitLevel.Built.raise (UnitLevel.Built.single (l := .ground) "s") (.clamp (-2147483648))
  exact (units_canonical.1 _ _ _ (.times hleast (.raise hleast .negOne))).1

end Reading

end Tabula
