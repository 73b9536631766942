import Tabula.Proofs.ExactPowers
import Tabula.Proofs.GrammarReading
import Tabula.Proofs.Results
import Tabula.Proofs.Spelling

/-!
# Quotients by way of the inverse

There are two checked quotients.  `Product.divide?` subtracts the powers directly, so it is refused exactly if a
difference is out of range.  `Product.divideByInverse?`, which the reader of written units uses, multiplies by the
inverse.  The range of powers is not symmetric: the least power has no opposite, so a divisor in which it occurs
has no inverse, and the quotient is refused whatever it would be.

Nothing else tells the two apart.  A divisor with an inverse gives the same quotient, and the same refusals, in both.
-/

namespace Tabula

open Parsed (Yields)
open Lexeme (firstToken?)

/-- The negative of an exponent is out of range for the least one only. -/
theorem Exponent.fits_neg_iff (p : Exponent) : Fits (-p.val) ↔ p.val ≠ -2147483648 := by
  have hlower := p.lower
  have hupper := p.upper
  unfold Fits
  omega

namespace Product

variable {α : Type} [Ord α] [Std.TransOrd α] {u v w : Product α} {a : α} {p : Exponent}
  {fs : List (α × Exponent)}

/-- To add the opposite of a power is to subtract the power. -/
theorem addPower?_clamp_neg (h : Exponent.Fits (-p.val)) (u : Product α) (a : α) :
    u.addPower? a (.clamp (-p.val)) = u.subPower? a p := by
  rw [addPower?, subPower?, Exponent.val_clamp_of_fits h, Int.sub_eq_add_neg]

omit [Ord α] [Std.TransOrd α] in
/-- A factor that has an inverse stays a factor, with the opposite power. -/
theorem raiseFactor_negOne {f : α × Exponent} (hfits : Exponent.Fits (-f.2.val)) (hne : f.2 ≠ 0) :
    raiseFactor .negOne f = some (f.1, .clamp (-f.2.val)) := by
  have hzero : Exponent.clamp (-f.2.val) ≠ 0 := by
    intro heq
    have hval := congrArg Exponent.val heq
    rw [Exponent.val_clamp_of_fits hfits, Exponent.val_zero] at hval
    exact hne (Exponent.val_eq_zero_iff.1 (by omega))
  simp only [raiseFactor, Exponent.val_negOne, Int.mul_neg_one]
  rw [if_neg hzero]

/-- Multiplying by inverse factors one after the other is dividing by the factors one after the other. -/
theorem foldlM_addPower?_raiseFactor (hfits : ∀ f ∈ fs, Exponent.Fits (-f.2.val)) (hne : ∀ f ∈ fs, f.2 ≠ 0)
    (u : Product α) :
    (fs.filterMap (raiseFactor .negOne)).foldlM (fun w f => w.addPower? f.1 f.2) u =
      fs.foldlM (fun w f => w.subPower? f.1 f.2) u := by
  induction fs generalizing u with
  | nil => rfl
  | cons f fs ih =>
      obtain ⟨hffits, hfits⟩ := List.forall_mem_cons.1 hfits
      obtain ⟨hfne, hne⟩ := List.forall_mem_cons.1 hne
      rw [List.filterMap_cons_some (raiseFactor_negOne hffits hfne), List.foldlM_cons, List.foldlM_cons,
        addPower?_clamp_neg hffits]
      exact congrArg _ (funext (ih hfits hne))

/-- The divisor has no inverse exactly if the least power occurs in it. -/
theorem raise?_negOne_eq_none_iff : v.raise? .negOne = none ↔ ∃ a, (v.power a).val = -2147483648 := by
  rw [raise?_eq_none_iff]
  refine exists_congr fun a => ?_
  rw [Exponent.val_negOne, Int.mul_neg_one, Exponent.fits_neg_iff, not_not]

/-- With an inverse of the divisor the two quotients are the same, refusals included. -/
theorem divideByInverse?_eq_divide? (h : ∀ a, (v.power a).val ≠ -2147483648) :
    u.divideByInverse? v = u.divide? v := by
  have hfits : ∀ f ∈ v.factors, Exponent.Fits (-f.2.val) := by
    intro f hf
    rw [Exponent.fits_neg_iff, ← power_of_mem hf]
    exact h f.1
  have hinverse : v.raise? .negOne = some (v.raise .negOne) := by
    unfold raise?
    rw [if_pos]
    simpa only [Exponent.val_negOne, Int.mul_neg_one] using hfits
  rw [divideByInverse?, hinverse]
  exact foldlM_addPower?_raiseFactor hfits v.nonzero u

/-- The quotient is refused exactly if the divisor has no inverse or a difference of powers is out of range. -/
theorem divideByInverse?_eq_none_iff :
    u.divideByInverse? v = none ↔
      (∃ a, (v.power a).val = -2147483648) ∨ ∃ a, ¬ Exponent.Fits (u.difference v a) := by
  by_cases hleast : ∃ a, (v.power a).val = -2147483648
  · have hnone : u.divideByInverse? v = none := by
      rw [divideByInverse?, raise?_negOne_eq_none_iff.2 hleast]
      rfl
    exact iff_of_true hnone (.inl hleast)
  · rw [divideByInverse?_eq_divide? (not_exists.1 hleast), divide?_eq_none_iff]
    exact (or_iff_right hleast).symm

/-- A quotient by way of the inverse is the quotient. -/
theorem divide?_of_divideByInverse? (h : u.divideByInverse? v = some w) : u.divide? v = some w := by
  rw [← divideByInverse?_eq_divide?, h]
  intro a hleast
  rw [divideByInverse?_eq_none_iff.2 (.inl ⟨a, hleast⟩)] at h
  cases h

end Product

namespace UnitScheme

variable {units : UnitCatalog} {ts mid rest : List Lexeme} {l : Lexeme} {u v : UnitScheme}

/-- Two units with a slash between them are read, and all that can be wrong with their quotient is a power. -/
theorem readQuotient_eq_invalidExponent_iff (hu : Yields (readSingle units ts) u (l :: mid)) (hl : l.token = .div)
    (hv : Yields (readSingle units mid) v rest) (hrest : firstToken? rest ≠ some .div) :
    (∃ span, readQuotient units ts = .error (.invalidExponent span)) ↔ u.divideByInverse? v = none := by
  constructor
  · rintro ⟨span, herror⟩
    cases hquotient : u.divideByInverse? v with
    | none => rfl
    | some w =>
        obtain ⟨r, hr, -⟩ := yields_readQuotient.2 (.inr ⟨u, l, mid, v, hu, hl, hv, hrest, hquotient⟩)
        cases herror.symm.trans hr
  · intro hnone
    obtain ⟨numerator, hnumerator, rfl, hmid⟩ := hu
    obtain ⟨denominator, hdenominator, rfl, rfl⟩ := hv
    refine ⟨⟨Lexeme.startOf ts, denominator.stop⟩, ?_⟩
    rw [readQuotient]
    refine bind_eq_error_iff.2 (.inr ⟨numerator, hnumerator, ?_⟩)
    split
    · rename_i hnil
      cases hmid.symm.trans hnil
    · rename_i l' mid' hmid'
      obtain ⟨rfl, rfl⟩ := List.cons.inj (hmid.symm.trans hmid')
      rw [if_pos hl]
      refine bind_eq_error_iff.2 (.inr ⟨denominator, hdenominator, ?_⟩)
      split
      · rename_i hdiv
        exact absurd (by rw [firstToken?, hdiv]; rfl) hrest
      · rw [hnone]
        rfl

/-- A quotient out of range at the front of a text is reported, whatever follows it. -/
theorem parse_eq_invalidExponent {source : String} {span : Span} (hls : Lexeme.readAll source = .ok ts)
    (h : readQuotient units ts = .error (.invalidExponent span)) :
    UnitScheme.parse units source = .error (.invalidExponent span) := by
  simp only [UnitScheme.parse, parseAll, hls]
  rw [UnitScheme.read, h]
  rfl

/-- The lexemes of a quotient of two powers of the metre, which are read as these powers. -/
theorem exists_lexemes_of_metres (source : String) (p q : Exponent)
    (hsource : source.toList = 'm' :: '^' :: p.text.toList ++ '/' :: 'm' :: '^' :: q.text.toList)
    (hu : (Product.single (.unit ⟨"m", "metre"⟩)).raise? p = some u)
    (hv : (Product.single (.unit ⟨"m", "metre"⟩)).raise? q = some v) :
    ∃ ts l mid, Lexeme.readAll source = .ok ts ∧ l.token = .div ∧
      Yields (readSingle .builtin ts) u (l :: mid) ∧ Yields (readSingle .builtin mid) v [] := by
  have hword : Token.Spells "m".toList [.name "m"] := Token.Spells.word (n := "m") rfl
  have hpower (p : Exponent) : Token.Spells ("m".toList ++ '^' :: p.text.toList) [.name "m", .pow, .int p] :=
    hword.append ((Token.Spells.int p).symbol '^' rfl) (Token.boundary_of_ofChar? rfl)
  have hspells := (hpower p).append ((hpower q).symbol '/' rfl) (Token.boundary_of_ofChar? rfl)
  obtain ⟨ls, hls, htokens⟩ := hspells.lexes 0
  obtain ⟨left, l, right, hsplit, hl, hleft, hright⟩ := Lexeme.exists_of_separated htokens
  have hall : ls = left ++ l :: right := by simpa using hsplit []
  have hmetre : Derives .builtin [.name "m"] (.atom (.unit ⟨"m", "metre"⟩)) := .unitName rfl rfl
  refine ⟨ls, l, right, ?_, hl, ?_, ?_⟩
  · rw [Lexeme.readAll, scan, hsource]
    exact hls
  · rw [hall]
    exact (hmetre.power hu).accepted left hleft (l :: right) (by simp [hl])
  · have hread := (hmetre.power hv).accepted right hright [] (by simp)
    rwa [List.append_nil] at hread

/-- The checked quotient of written units, and what its reader reports.  The quotient is refused exactly if the least
power occurs in the divisor or a difference of powers is out of range; otherwise it is the quotient that the direct
subtraction gives, with the exact differences as powers. -/
theorem divideByInverse?_and_readQuotient (u v : UnitScheme) :
    (u.divideByInverse? v = none ↔
      (∃ a, (v.power a).val = -2147483648) ∨ ∃ a, ¬ Exponent.Fits (u.difference v a)) ∧
    (∀ w, u.divideByInverse? v = some w → u.divide? v = some w ∧ ∀ a, (w.power a).val = u.difference v a) ∧
    ∀ units ts l mid rest, Yields (readSingle units ts) u (l :: mid) → l.token = .div →
      Yields (readSingle units mid) v rest → firstToken? rest ≠ some .div →
      ((∃ span, readQuotient units ts = .error (.invalidExponent span)) ↔
        (∃ a, (v.power a).val = -2147483648) ∨ ∃ a, ¬ Exponent.Fits (u.difference v a)) := by
  refine ⟨Product.divideByInverse?_eq_none_iff, fun w hw => ?_, fun units ts l mid rest hu hl hv hrest => ?_⟩
  · have hdivide := Product.divide?_of_divideByInverse? hw
    exact ⟨hdivide, Product.power_of_divide? hdivide⟩
  · rw [readQuotient_eq_invalidExponent_iff hu hl hv hrest, Product.divideByInverse?_eq_none_iff]

/-- The text `m^2147483647/m^-1` is refused because of a difference, `m^-1/m^-2147483648` because of its divisor. -/
theorem divideByInverse?_and_readQuotient_of_extreme_powers :
    let m : Atom Name := .unit ⟨"m", "metre"⟩
    ∃ ts ts' span span', Lexeme.readAll "m^2147483647/m^-1" = .ok ts ∧
      Lexeme.readAll "m^-1/m^-2147483648" = .ok ts' ∧
      ¬ Exponent.Fits (Product.difference (.ofFactors [(m, .clamp 2147483647)]) (.ofFactors [(m, .clamp (-1))]) m) ∧
      readQuotient .builtin ts = .error (.invalidExponent span) ∧
      readQuotient .builtin ts' = .error (.invalidExponent span') := by
  intro m
  obtain ⟨ts, l, mid, hts, hl, hu, hv⟩ := exists_lexemes_of_metres "m^2147483647/m^-1"
    (.clamp 2147483647) (.clamp (-1)) rfl rfl rfl
  obtain ⟨ts', l', mid', hts', hl', hu', hv'⟩ := exists_lexemes_of_metres "m^-1/m^-2147483648"
    (.clamp (-1)) (.clamp (-2147483648)) rfl rfl rfl
  have hdifference : ¬ Exponent.Fits
      (Product.difference (.ofFactors [(m, .clamp 2147483647)]) (.ofFactors [(m, .clamp (-1))]) m) := by
    simp only [m]
    decide
  obtain ⟨span, hspan⟩ := ((divideByInverse?_and_readQuotient _ _).2.2 _ _ _ _ _ hu hl hv (by simp)).2
    (.inr ⟨m, hdifference⟩)
  obtain ⟨span', hspan'⟩ := ((divideByInverse?_and_readQuotient _ _).2.2 _ _ _ _ _ hu' hl' hv' (by simp)).2
    (.inl ⟨m, rfl⟩)
  exact ⟨ts, ts', span, span', hts, hts', hdifference, hspan, hspan'⟩

/-- The quotient `m^-1/m^-2147483648` is `m^2147483647`, but the divisor has no inverse. -/
theorem divideByInverse?_refused_in_range :
    let m : Atom Name := .unit ⟨"m", "metre"⟩
    let u : UnitScheme := .ofFactors [(m, .clamp (-1))]
    let v : UnitScheme := .ofFactors [(m, .clamp (-2147483648))]
    (∀ a, Exponent.Fits (u.difference v a)) ∧ u.divide? v = some (.ofFactors [(m, .clamp 2147483647)]) ∧
      u.divideByInverse? v = none ∧
      ∃ span, UnitScheme.parse .builtin "m^-1/m^-2147483648" = .error (.invalidExponent span) := by
  intro m u v
  have hdivide : u.divide? v = some (.ofFactors [(m, .clamp 2147483647)]) := by
    simp only [u, v, m]
    rfl
  have hrefused : u.divideByInverse? v = none := by
    simp only [u, v, m]
    rfl
  refine ⟨fun a => ?_, hdivide, hrefused, ?_⟩
  · rw [← Product.power_of_divide? hdivide]
    exact Exponent.fits_val _
  · obtain ⟨ts, l, mid, hts, hl, hu, hv⟩ := exists_lexemes_of_metres "m^-1/m^-2147483648"
      (.clamp (-1)) (.clamp (-2147483648)) rfl rfl rfl
    obtain ⟨span, herror⟩ := (readQuotient_eq_invalidExponent_iff hu hl hv (by simp)).2 hrefused
    exact ⟨span, parse_eq_invalidExponent hts herror⟩

end UnitScheme

end Tabula
