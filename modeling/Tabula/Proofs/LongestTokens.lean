import Tabula.Proofs.Spelling

/-!
# Tokens are as long as possible

Which texts are those of a token can be said without a lexer: a name stands for itself, an integer has its decimal
numerals, and every other token has one text.  `Token.munch` looks at the front of a text and never goes back, and
still it finds the longest text of a token there.

Where it finds no token, it cuts off one character at which none starts, or a numeral that is out of range.  Such a
numeral is cut off as a whole, although a part of it would be in range.
-/

namespace Tabula

namespace Token

/-- The text is a decimal numeral of the integer: digits, and in front of them a minus sign if they count below zero. -/
def Numeral (text : List Char) (value : Int) : Prop :=
  ∃ digits, digits ≠ [] ∧ (∀ d ∈ digits, d.isDigit = true) ∧
    (text = digits ∧ value = Nat.ofDigitChars 10 digits 0 ∨
      text = '-' :: digits ∧ value = -(Nat.ofDigitChars 10 digits 0 : Int))

/-- The text can be read as the token.  A name that is spelled like a keyword is that keyword. -/
def IsLexeme (text : String) : Token → Prop
  | name n => text = n ∧ n.isValid = true ∧ ∀ k : Keyword, k.spelling ≠ n
  | int p => Numeral text.toList p.val
  | t => t.literal? = some text

/-- No text of a token at the front of `cs` has more than `n` characters. -/
def NoLonger (n : Nat) (cs : List Char) : Prop :=
  ∀ (t : Token) (text : String), t.IsLexeme text → text.toList <+: cs → text.length ≤ n

/-- No token starts at the front of `cs`. -/
def NoneStarts (cs : List Char) : Prop :=
  ∀ (t : Token) (text : String), t.IsLexeme text → ¬ text.toList <+: cs

/-- What is cut off from the front of a text: `text`, which is read as a token or not, in front of `rest`. -/
inductive CutsOff (text rest : List Char) : Option Token → Prop where
  | token {t : Token} (h : t.IsLexeme (.ofList text)) (longest : NoLonger text.length (text ++ rest)) :
      CutsOff text rest (some t)
  /-- One character that is no blank, and no token starts with it here. -/
  | character {c : Char} (h : text = [c]) (blank : isBlank c = false) (empty : NoneStarts (text ++ rest)) :
      CutsOff text rest none
  /-- A whole integer that is out of range. -/
  | integer {value : Int} (h : Numeral text value) (range : ¬ Exponent.Fits value)
      (whole : ∀ d ∈ rest.head?, d.isDigit = false) : CutsOff text rest none

section Forms

variable {c : Char} {cs : List Char} {text : String} {t : Token}

theorem length_le_takeWhile {p : Char → Bool} {xs : List Char} (h : xs <+: cs) (hp : ∀ x ∈ xs, p x = true) :
    xs.length ≤ (cs.takeWhile p).length := by
  obtain ⟨ys, rfl⟩ := h
  rw [List.takeWhile_append_of_pos hp, List.length_append]
  exact Nat.le_add_right _ _

theorem Numeral.isDigit_or_minus {value : Int} (h : Numeral (c :: cs) value) : c.isDigit = true ∨ c = '-' := by
  obtain ⟨digits, -, hdigits, ⟨rfl, -⟩ | ⟨heq, -⟩⟩ := h
  · exact .inl (hdigits c List.mem_cons_self)
  · exact .inr (List.cons.inj heq).1

theorem Numeral.forall_isDigit {value : Int} (h : Numeral (c :: cs) value) : ∀ d ∈ cs, d.isDigit = true := by
  obtain ⟨digits, -, hdigits, ⟨rfl, -⟩ | ⟨heq, -⟩⟩ := h
  · exact fun d hd => hdigits d (List.mem_cons_of_mem c hd)
  · obtain ⟨-, rfl⟩ := List.cons.inj heq
    exact hdigits

theorem Numeral.ne_nil_of_minus {value : Int} (h : Numeral ('-' :: cs) value) : cs ≠ [] := by
  obtain ⟨digits, hne, hdigits, ⟨rfl, -⟩ | ⟨heq, -⟩⟩ := h
  · cases hdigits '-' List.mem_cons_self
  · obtain ⟨-, rfl⟩ := List.cons.inj heq
    exact hne

/-- The characters that are tokens by themselves start no other token. -/
theorem not_start_of_ofChar? (h : ofChar? c = some t) :
    Name.isHead c = false ∧ c.isDigit = false ∧ c ≠ '-' ∧ c ≠ '.' ∧ c ≠ '@' := by
  unfold ofChar? at h
  split at h <;> first | decide | cases h

theorem isLexeme_of_ofChar? (h : ofChar? c = some t) : t.IsLexeme (.ofList [c]) := by
  unfold ofChar? at h
  split at h <;> cases h <;> rfl

/-- The lexemes at the front of a text, by their first character. -/
theorem IsLexeme.at_front (h : t.IsLexeme text) (hfront : text.toList <+: c :: cs) :
    (Name.isHead c = true ∧ text.length ≤ (cs.takeWhile Name.isTail).length + 1) ∨
    (c.isDigit = true ∧ text.length ≤ (cs.takeWhile Char.isDigit).length + 1) ∨
    (c = '-' ∧ 0 < (cs.takeWhile Char.isDigit).length ∧ text.length ≤ (cs.takeWhile Char.isDigit).length + 1) ∨
    (c = '-' ∧ ['>'] <+: cs ∧ text.length = 2) ∨
    (c = '.' ∧ ['.', '.'] <+: cs ∧ text.length = 3) ∨
    (c = '@' ∧ unitVarTail <+: cs ∧ text.length = unitVarTail.length + 1) ∨
    ((ofChar? c).isSome = true ∧ text.length = 1) := by
  have hword (n : Name) (hn : n.isValid = true) (hfront : n.toList <+: c :: cs) :
      Name.isHead c = true ∧ n.length ≤ (cs.takeWhile Name.isTail).length + 1 := by
    obtain ⟨d, ds, htext, hhead, htail⟩ := Name.isValid_iff.1 hn
    rw [htext] at hfront
    obtain ⟨rfl, hbehind⟩ := List.cons_prefix_cons.1 hfront
    rw [← String.length_toList, htext, List.length_cons]
    exact ⟨hhead, Nat.succ_le_succ (length_le_takeWhile hbehind htail)⟩
  cases t with
  | name n =>
      obtain ⟨rfl, hvalid, -⟩ := h
      exact .inl (hword text hvalid hfront)
  | keyword k =>
      cases h
      exact .inl (hword k.spelling (Name.isValid_spelling k) hfront)
  | int p =>
      replace h : Numeral text.toList p.val := h
      rw [← String.length_toList]
      cases htext : text.toList with
      | nil =>
          obtain ⟨digits, hne, -, ⟨heq, -⟩ | ⟨heq, -⟩⟩ := h
          · exact absurd (heq.symm.trans htext) hne
          · cases heq.symm.trans htext
      | cons d ds =>
          rw [htext] at h hfront
          obtain ⟨rfl, hbehind⟩ := List.cons_prefix_cons.1 hfront
          have hlength := length_le_takeWhile hbehind h.forall_isDigit
          rcases h.isDigit_or_minus with hdigit | rfl
          · exact .inr (.inl ⟨hdigit, Nat.succ_le_succ hlength⟩)
          · have hpos := List.length_pos_iff.2 h.ne_nil_of_minus
            exact .inr (.inr (.inl ⟨rfl, Nat.lt_of_lt_of_le hpos hlength, Nat.succ_le_succ hlength⟩))
  | arrow =>
      cases h
      obtain ⟨rfl, hbehind⟩ := List.cons_prefix_cons.1 hfront
      exact .inr (.inr (.inr (.inl ⟨rfl, hbehind, rfl⟩)))
  | ellipsis =>
      cases h
      obtain ⟨rfl, hbehind⟩ := List.cons_prefix_cons.1 hfront
      exact .inr (.inr (.inr (.inr (.inl ⟨rfl, hbehind, rfl⟩))))
  | unitVar =>
      cases h
      obtain ⟨rfl, hbehind⟩ := List.cons_prefix_cons.1 hfront
      exact .inr (.inr (.inr (.inr (.inr (.inl ⟨rfl, hbehind, rfl⟩)))))
  | _ =>
      cases h
      obtain ⟨rfl, -⟩ := List.cons_prefix_cons.1 hfront
      exact .inr (.inr (.inr (.inr (.inr (.inr ⟨rfl, rfl⟩)))))

/-- A word is the text of the token that it is read as. -/
theorem isLexeme_ofWord {n : Name} (hn : n.isValid = true) : (ofWord n.toList).IsLexeme n := by
  cases hkeyword : Keyword.ofName? n with
  | some k =>
      rw [ofWord_of_ofName? hkeyword]
      exact congrArg some (Keyword.ofName?_eq_some_iff.1 hkeyword)
  | none =>
      rw [ofWord_of_isKeyword_eq_false (Name.isKeyword_eq_false_iff.2 hkeyword)]
      refine ⟨rfl, hn, fun k hk => ?_⟩
      rw [Keyword.ofName?_eq_some_iff.2 hk] at hkeyword
      cases hkeyword

end Forms

section Munch

variable (c : Char) (cs : List Char)

theorem take_length_takeWhile (p : Char → Bool) : cs.take (cs.takeWhile p).length = cs.takeWhile p :=
  (List.prefix_iff_eq_take.1 (List.takeWhile_prefix p)).symm

theorem drop_length_takeWhile (p : Char → Bool) : cs.drop (cs.takeWhile p).length = cs.dropWhile p := by
  have hsplit := congrArg (List.drop (cs.takeWhile p).length) (List.takeWhile_append_dropWhile (p := p) (l := cs))
  exact hsplit.symm.trans List.drop_left

theorem isDigit_of_mem_head?_dropWhile {d : Char} (h : d ∈ (cs.dropWhile Char.isDigit).head?) :
    d.isDigit = false := by
  have hnot := List.head?_dropWhile_not Char.isDigit cs
  rwa [Option.mem_def.1 h] at hnot

variable {c cs}

theorem cutsOff_word (hc : Name.isHead c = true) :
    CutsOff (c :: cs.takeWhile Name.isTail) (cs.dropWhile Name.isTail)
      (some (ofWord (c :: cs.takeWhile Name.isTail))) := by
  have hvalid : Name.isValid (.ofList (c :: cs.takeWhile Name.isTail)) = true :=
    Name.isValid_iff.2 ⟨c, _, String.toList_ofList, hc, List.all_eq_true.1 List.all_takeWhile⟩
  refine .token (by simpa using isLexeme_ofWord hvalid) fun t text h hfront => ?_
  rw [List.cons_append, List.takeWhile_append_dropWhile] at hfront
  have hdigit : c.isDigit ≠ true := fun h => by simp [isHead_of_isDigit h] at hc
  rcases h.at_front hfront with ⟨-, hlength⟩ | ⟨hc', -⟩ | ⟨rfl, -⟩ | ⟨rfl, -⟩ | ⟨rfl, -⟩ | ⟨rfl, -⟩ | ⟨hc', -⟩
  · exact hlength
  · exact absurd hc' hdigit
  · cases hc
  · cases hc
  · cases hc
  · cases hc
  · obtain ⟨t', ht'⟩ := Option.isSome_iff_exists.1 hc'
    simp [(not_start_of_ofChar? ht').1] at hc

/-- A numeral is read as an integer if it is in range, and it is cut off as a whole if it is not. -/
theorem cutsOff_numeral {text rest : List Char} {value : Int} (h : Numeral text value)
    (longest : NoLonger text.length (text ++ rest)) (whole : ∀ d ∈ rest.head?, d.isDigit = false) :
    CutsOff text rest ((Exponent.ofInt? value).map int) := by
  cases hvalue : Exponent.ofInt? value with
  | none => exact .integer h (Exponent.ofInt?_eq_none_iff.1 hvalue) whole
  | some p =>
      refine .token ?_ longest
      rw [IsLexeme, String.toList_ofList, Exponent.ofInt?_eq_some_iff.1 hvalue]
      exact h

theorem cutsOff_digits (hc : c.isDigit = true) :
    CutsOff (c :: cs.takeWhile Char.isDigit) (cs.dropWhile Char.isDigit)
      ((Exponent.ofInt? (digitsValue (c :: cs.takeWhile Char.isDigit))).map int) := by
  have hdigits : ∀ d ∈ c :: cs.takeWhile Char.isDigit, d.isDigit = true :=
    List.forall_mem_cons.2 ⟨hc, List.all_eq_true.1 List.all_takeWhile⟩
  have hvalue : (digitsValue (c :: cs.takeWhile Char.isDigit) : Int) =
      Nat.ofDigitChars 10 (c :: cs.takeWhile Char.isDigit) 0 := congrArg _ Nat.ofDigitChars_eq_foldl.symm
  refine cutsOff_numeral ⟨_, List.cons_ne_nil _ _, hdigits, .inl ⟨rfl, hvalue⟩⟩ (fun t text h hfront => ?_)
    fun d => isDigit_of_mem_head?_dropWhile cs
  rw [List.cons_append, List.takeWhile_append_dropWhile] at hfront
  rcases h.at_front hfront with ⟨hc', -⟩ | ⟨-, hlength⟩ | ⟨rfl, -⟩ | ⟨rfl, -⟩ | ⟨rfl, -⟩ | ⟨rfl, -⟩ | ⟨hc', -⟩
  · simp [isHead_of_isDigit hc] at hc'
  · exact hlength
  · cases hc
  · cases hc
  · cases hc
  · cases hc
  · obtain ⟨t', ht'⟩ := Option.isSome_iff_exists.1 hc'
    simp [(not_start_of_ofChar? ht').2.1] at hc

/-- What can start with a minus sign. -/
theorem IsLexeme.at_minus {t : Token} {text : String} (h : t.IsLexeme text) (hfront : text.toList <+: '-' :: cs) :
    (0 < (cs.takeWhile Char.isDigit).length ∧ text.length ≤ (cs.takeWhile Char.isDigit).length + 1) ∨
      ['>'] <+: cs ∧ text.length = 2 := by
  simpa +decide using h.at_front hfront

theorem cutsOff_negative (hdigits : cs.takeWhile Char.isDigit ≠ []) :
    CutsOff ('-' :: cs.takeWhile Char.isDigit) (cs.dropWhile Char.isDigit)
      ((Exponent.ofInt? (-(digitsValue (cs.takeWhile Char.isDigit) : Int))).map int) := by
  have hvalue : (digitsValue (cs.takeWhile Char.isDigit) : Int) =
      Nat.ofDigitChars 10 (cs.takeWhile Char.isDigit) 0 := congrArg _ Nat.ofDigitChars_eq_foldl.symm
  refine cutsOff_numeral ⟨_, hdigits, List.all_eq_true.1 List.all_takeWhile, .inr ⟨rfl, congrArg _ hvalue⟩⟩
    (fun t text h hfront => ?_) fun d => isDigit_of_mem_head?_dropWhile cs
  rw [List.cons_append, List.takeWhile_append_dropWhile] at hfront
  have hpos := List.length_pos_iff.2 hdigits
  rw [List.length_cons]
  rcases h.at_minus hfront with ⟨-, hlength⟩ | ⟨-, hlength⟩ <;> omega

/-- A token with one text that stands at the front of a text is cut off, if nothing longer starts there. -/
theorem cutsOff_literal {t : Token} {tail : List Char} (ht : t.IsLexeme (.ofList (c :: tail))) (htail : tail <+: cs)
    (longest : NoLonger (tail.length + 1) (c :: cs)) :
    CutsOff (c :: cs.take tail.length) (cs.drop tail.length) (some t) := by
  obtain ⟨rest, rfl⟩ := htail
  rw [List.take_left, List.drop_left]
  exact .token ht longest

/-- Where no token starts, one character is cut off. -/
theorem cutsOff_character (hc : isBlank c = false) (h : NoneStarts (c :: cs)) :
    CutsOff (c :: cs.take 0) (cs.drop 0) none :=
  .character rfl hc h

/-- A character with which only one token starts, and that one has a fixed text. -/
theorem cutsOff_fixed {t : Token} {tail : List Char} (hc : isBlank c = false)
    (ht : t.IsLexeme (.ofList (c :: tail)))
    (h : ∀ (t : Token) (text : String), t.IsLexeme text → text.toList <+: c :: cs →
      tail <+: cs ∧ text.length = tail.length + 1) :
    let m : Option Token × Nat := if tail.isPrefixOf cs then (some t, tail.length) else (none, 0)
    CutsOff (c :: cs.take m.2) (cs.drop m.2) m.1 := by
  intro m
  simp only [m]
  split
  · rename_i hprefix
    exact cutsOff_literal ht (List.isPrefixOf_iff_prefix.1 hprefix) fun t text htext hfront =>
      Nat.le_of_eq (h t text htext hfront).2
  · rename_i hprefix
    exact cutsOff_character hc fun t text htext hfront =>
      hprefix (List.isPrefixOf_iff_prefix.2 (h t text htext hfront).1)

theorem cutsOff_minus :
    let tail := cs.takeWhile Char.isDigit
    let m : Option Token × Nat :=
      if !tail.isEmpty then ((Exponent.ofInt? (-(digitsValue tail : Int))).map int, tail.length)
      else if ['>'].isPrefixOf cs then (some arrow, 1)
      else (none, 0)
    CutsOff ('-' :: cs.take m.2) (cs.drop m.2) m.1 := by
  intro tail m
  simp only [m]
  split
  · rename_i hdigits
    have hne : tail ≠ [] := by simpa using hdigits
    rw [take_length_takeWhile, drop_length_takeWhile]
    exact cutsOff_negative hne
  · rename_i hdigits
    have hnone : tail = [] := by simpa using hdigits
    refine cutsOff_fixed rfl rfl fun t text h hfront => ?_
    rcases h.at_minus hfront with ⟨hpos, -⟩ | hgt
    · exact absurd hnone (List.length_pos_iff.1 hpos)
    · exact hgt

/-- One step of the lexer. -/
theorem cutsOff_munch {c : Char} (hblank : isBlank c = false) (cs : List Char) :
    CutsOff (c :: cs.take (munch c cs).2) (cs.drop (munch c cs).2) (munch c cs).1 := by
  unfold munch
  split
  · rename_i hc
    rw [take_length_takeWhile, drop_length_takeWhile]
    exact cutsOff_word hc
  rename_i hhead
  split
  · rename_i hc
    rw [take_length_takeWhile, drop_length_takeWhile]
    exact cutsOff_digits hc
  rename_i hdigit
  split
  · rename_i hc
    obtain rfl : c = '-' := by simpa using hc
    exact cutsOff_minus
  rename_i hminus
  split
  · rename_i hc
    obtain rfl : c = '.' := by simpa using hc
    refine cutsOff_fixed rfl rfl fun t text h hfront => ?_
    simpa +decide using h.at_front hfront
  rename_i hdot
  split
  · rename_i hc
    obtain rfl : c = '@' := by simpa using hc
    refine cutsOff_fixed rfl rfl fun t text h hfront => ?_
    simpa +decide using h.at_front hfront
  rename_i hat
  -- Only the characters that are tokens by themselves are left.
  have halone (t : Token) (text : String) (h : t.IsLexeme text) (hfront : text.toList <+: c :: cs) :
      (ofChar? c).isSome = true ∧ text.length = 1 := by
    rw [beq_iff_eq] at hminus hdot hat
    simpa [hhead, hdigit, hminus, hdot, hat] using h.at_front hfront
  cases hc : ofChar? c with
  | none => exact cutsOff_character hblank fun t text h hfront => by simpa [hc] using halone t text h hfront
  | some t =>
      exact cutsOff_literal (isLexeme_of_ofChar? hc) List.nil_prefix fun t text h hfront =>
        Nat.le_of_eq (halone t text h hfront).2

end Munch

end Token

end Tabula
