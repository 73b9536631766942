import Tabula.Token.Lexer

/-!
# Texts as sequences of tokens

A token is the longest one at its place, so whether a text is a certain sequence of tokens depends on what
comes next: a name ends where no further letter, digit or underscore follows.  `Token.Spells` is the form in
which this is used: the text is that sequence of tokens in front of everything that continues no word.

Conversely, `Token.WellFormed` is what is known of every token that is read: a name has the form of a name
and is no keyword.  Of the places of the lexemes it is known that they come one after the other.

The three tables of keywords agree: a keyword stands for the name that is read as it, and the names that are
read as keywords are those that cannot be declared.
-/

namespace Tabula

namespace Name

/-- A name may go on with any character that it may start with. -/
theorem isTail_of_isHead {c : Char} (h : isHead c = true) : isTail c = true := by
  simp only [isHead, isTail, Char.isAlphanum, Bool.or_eq_true] at h ⊢
  exact h.imp_right .inl

theorem isTail_of_isDigit {c : Char} (h : c.isDigit = true) : isTail c = true := by
  simp [isTail, Char.isAlphanum, h]

/-- A name that can be written is a first character and further ones. -/
theorem isValid_iff {n : Name} :
    n.isValid = true ↔ ∃ c cs, n.toList = c :: cs ∧ isHead c = true ∧ ∀ d ∈ cs, isTail d = true := by
  unfold isValid
  split
  · simp_all
  · rename_i c cs h
    simp [h, and_assoc]

/-- Keywords have the form of names. -/
theorem isValid_spelling (k : Keyword) : k.spelling.isValid = true := by
  cases k <;> decide

/-- The names that cannot be declared are the words that are read as keywords. -/
theorem isKeyword_iff {n : Name} : n.isKeyword = true ↔ ∃ k : Keyword, k.spelling = n := by
  constructor
  · intro h
    have hread : ∀ m ∈ keywords, (Keyword.ofName? m).isSome = true := by decide
    obtain ⟨k, hk⟩ := Option.isSome_iff_exists.1 (hread n (by simpa [isKeyword] using h))
    exact ⟨k, Keyword.ofName?_eq_some_iff.1 hk⟩
  · rintro ⟨k, rfl⟩
    cases k <;> decide

theorem isKeyword_eq_false_iff {n : Name} : n.isKeyword = false ↔ Keyword.ofName? n = none := by
  rw [← Bool.not_eq_true, isKeyword_iff, Option.eq_none_iff_forall_ne_some]
  simp only [ne_eq, Keyword.ofName?_eq_some_iff, not_exists]

end Name

/-- A keyword stands for the word that is read as it. -/
theorem Keyword.asName_eq_spelling (k : Keyword) : k.asName = k.spelling := by
  cases k <;> rfl

namespace Token

/-- A word contains no blanks. -/
theorem isBlank_of_isTail {c : Char} (h : Name.isTail c = true) : isBlank c = false := by
  cases hblank : isBlank c with
  | false => rfl
  | true =>
      simp only [isBlank, Bool.or_eq_true, beq_iff_eq] at hblank
      rcases hblank with ((rfl | rfl) | rfl) | rfl <;> cases h

/-- What starts with a digit is no name. -/
theorem isHead_of_isDigit {c : Char} (h : c.isDigit = true) : Name.isHead c = false := by
  have hrange : 48 ≤ c.toNat ∧ c.toNat ≤ 57 := by
    simpa [Char.isDigit, UInt32.le_iff_toNat_le] using h
  have hne : c ≠ '_' := by
    rintro rfl
    cases h
  have halpha : c.isAlpha = false := by
    change (decide (c.val ≥ 'A'.val ∧ c.val ≤ 'Z'.val) || (c.val ≥ 'a'.val && c.val ≤ 'z'.val)) = false
    simp only [UInt32.le_iff_toNat_le, ge_iff_le]
    simp
    omega
  simp [Name.isHead, hne, halpha]

/-- The text consists of these tokens, wherever it stands in a source. -/
def Lexes (cs : List Char) (ts : List Token) : Prop :=
  ∀ offset, ∃ ls, Lexeme.ofPieces (scanFrom offset cs) = .ok ls ∧ ls.map Lexeme.token = ts

theorem lexes_nil : Lexes [] [] := by
  intro offset
  exact ⟨[], by simp [scanFrom, Lexeme.ofPieces], rfl⟩

/-- Blanks are dropped. -/
theorem Lexes.blank {c : Char} {cs : List Char} {ts : List Token} (hc : isBlank c = true) (h : Lexes cs ts) :
    Lexes (c :: cs) ts := by
  intro offset
  rw [scanFrom, if_pos hc]
  exact h _

/-- The first piece is a token, and the text behind it is the rest. -/
theorem Lexes.munch {c : Char} {cs : List Char} {t : Token} {n : Nat} {ts : List Token}
    (hc : isBlank c = false) (hm : Token.munch c cs = (some t, n)) (h : Lexes (cs.drop n) ts) :
    Lexes (c :: cs) (t :: ts) := by
  intro offset
  rw [scanFrom, if_neg (by simp [hc])]
  simp only [hm]
  obtain ⟨ls, hls, rfl⟩ := h (offset + (String.ofList (c :: cs.take n)).utf8ByteSize)
  exact ⟨_ :: ls, by rw [Lexeme.ofPieces, hls]; rfl, rfl⟩

/-- The text does not go on with a character of a word. -/
def Boundary (cs : List Char) : Prop :=
  ∀ c ∈ cs.head?, Name.isTail c = false

theorem boundary_nil : Boundary [] := by
  simp [Boundary]

theorem boundary_cons {c : Char} {cs : List Char} : Boundary (c :: cs) ↔ Name.isTail c = false := by
  simp [Boundary]

/-- A token of one character continues no word. -/
theorem boundary_of_ofChar? {c : Char} {cs : List Char} {t : Token} (h : ofChar? c = some t) :
    Boundary (c :: cs) := by
  rw [boundary_cons]
  unfold ofChar? at h
  split at h <;> first | rfl | cases h

theorem Boundary.append {cs ds : List Char} (hcs : Boundary cs) (hds : Boundary ds) : Boundary (cs ++ ds) := by
  cases cs with
  | nil => exact hds
  | cons c cs => exact hcs

/-- A run of characters of words is cut off where the word ends. -/
theorem Boundary.takeWhile_append {p : Char → Bool} (hp : ∀ c, p c = true → Name.isTail c = true)
    {cs rest : List Char} (hcs : ∀ c ∈ cs, p c = true) (h : Boundary rest) : (cs ++ rest).takeWhile p = cs := by
  rw [List.takeWhile_append_of_pos hcs]
  have hrest : rest.takeWhile p = [] := by
    cases rest with
    | nil => rfl
    | cons c rest =>
        have hc : p c ≠ true := fun hc => by simp [hp c hc, boundary_cons] at h
        simp [hc]
  rw [hrest, List.append_nil]

/-- A word is read to its end. -/
theorem munch_word {c : Char} {cs rest : List Char} (hhead : Name.isHead c = true)
    (htail : ∀ d ∈ cs, Name.isTail d = true) (hrest : Boundary rest) :
    munch c (cs ++ rest) = (some (ofWord (c :: cs)), cs.length) := by
  unfold munch
  rw [if_pos hhead, Boundary.takeWhile_append (fun _ h => h) htail hrest]

/-- The text is this sequence of tokens in front of any text that continues no word. -/
def Spells (cs : List Char) (ts : List Token) : Prop :=
  ∀ rest us, Boundary rest → Lexes rest us → Lexes (cs ++ rest) (ts ++ us)

namespace Spells

variable {cs ds : List Char} {ts us : List Token}

theorem lexes (h : Spells cs ts) : Lexes cs ts := by
  simpa using h [] [] boundary_nil lexes_nil

theorem nil : Spells [] [] :=
  fun _ _ _ h => h

/-- Texts can be put one after the other unless the second one continues a word of the first one. -/
theorem append (h : Spells cs ts) (h' : Spells ds us) (hds : Boundary ds) : Spells (cs ++ ds) (ts ++ us) := by
  intro rest rs hrest hrs
  rw [List.append_assoc, List.append_assoc]
  exact h _ _ (hds.append hrest) (h' rest rs hrest hrs)

theorem blank (c : Char) (hc : isBlank c = true) (h : Spells cs ts) : Spells (c :: cs) ts :=
  fun rest rs hrest hrs => (h rest rs hrest hrs).blank hc

/-- A token of one character may stand in front of any text. -/
theorem symbol (c : Char) {t : Token} (hc : ofChar? c = some t) (h : Spells cs ts) :
    Spells (c :: cs) (t :: ts) := by
  intro rest rs hrest hrs
  have hm : isBlank c = false ∧ Token.munch c (cs ++ rest) = (some t, 0) := by
    unfold ofChar? at hc
    split at hc <;> cases hc <;> exact ⟨rfl, rfl⟩
  exact Lexes.munch hm.1 hm.2 (h rest rs hrest hrs)

/-- A text between two tokens of one character each. -/
theorem enclosed {o c : Char} {t t' : Token} (ho : ofChar? o = some t) (hc : ofChar? c = some t')
    (h : Spells cs ts) : Spells (o :: cs ++ [c]) (t :: ts ++ [t']) :=
  (h.append (nil.symbol c hc) (boundary_of_ofChar? hc)).symbol o ho

theorem arrow (h : Spells cs ts) : Spells ('-' :: '>' :: cs) (.arrow :: ts) :=
  fun rest rs hrest hrs => Lexes.munch rfl rfl (h rest rs hrest hrs)

theorem ellipsis (h : Spells cs ts) : Spells ('.' :: '.' :: '.' :: cs) (.ellipsis :: ts) :=
  fun rest rs hrest hrs => Lexes.munch rfl rfl (h rest rs hrest hrs)

theorem unitVar (h : Spells cs ts) : Spells ('@' :: unitVarTail ++ cs) (.unitVar :: ts) :=
  fun rest rs hrest hrs => Lexes.munch rfl rfl (h rest rs hrest hrs)

/-- A name is one token. -/
theorem word {n : Name} (hn : n.isValid = true) : Spells n.toList [ofWord n.toList] := by
  intro rest rs hrest hrs
  obtain ⟨c, cs, htext, hhead, htail⟩ := Name.isValid_iff.1 hn
  rw [htext]
  exact Lexes.munch (isBlank_of_isTail (Name.isTail_of_isHead hhead)) (munch_word hhead htail hrest)
    (by simpa using hrs)

/-- Digits are one integer. -/
theorem digits {c : Char} {ds : List Char} {p : Exponent} (hds : ∀ d ∈ c :: ds, d.isDigit = true)
    (hp : p.val = digitsValue (c :: ds)) : Spells (c :: ds) [.int p] := by
  intro rest rs hrest hrs
  obtain ⟨hc, hds⟩ := List.forall_mem_cons.1 hds
  have hwhile := Boundary.takeWhile_append (fun _ => Name.isTail_of_isDigit) hds hrest
  have hm : Token.munch c (ds ++ rest) = (some (.int p), ds.length) := by
    unfold Token.munch
    rw [if_neg (by simp [isHead_of_isDigit hc]), if_pos hc, hwhile]
    simp only [Exponent.ofInt?_eq_some_iff.2 hp, Option.map_some]
  exact Lexes.munch (isBlank_of_isTail (Name.isTail_of_isDigit hc)) hm (by simpa using hrs)

/-- A minus sign and digits are one integer. -/
theorem negative {c : Char} {ds : List Char} {p : Exponent} (hds : ∀ d ∈ c :: ds, d.isDigit = true)
    (hp : p.val = -(digitsValue (c :: ds) : Int)) : Spells ('-' :: c :: ds) [.int p] := by
  intro rest rs hrest hrs
  have hwhile := Boundary.takeWhile_append (fun _ => Name.isTail_of_isDigit) hds hrest
  have hm : Token.munch '-' (c :: ds ++ rest) = (some (.int p), (c :: ds).length) := by
    unfold Token.munch
    rw [if_neg (by decide), if_neg (by decide), if_pos (by decide), hwhile]
    simp only [List.isEmpty_cons, Bool.not_false, if_true, Exponent.ofInt?_eq_some_iff.2 hp, Option.map_some]
  exact Lexes.munch rfl hm (by simpa using hrs)

/-- The written form of an exponent is read as that exponent. -/
theorem int (p : Exponent) : Spells p.text.toList [.int p] := by
  have hdigits : ∀ n : Nat, ∃ c ds, n.repr.toList = c :: ds ∧ (∀ d ∈ c :: ds, d.isDigit = true) ∧
      digitsValue (c :: ds) = n := by
    intro n
    obtain ⟨c, ds, hcs⟩ := List.exists_cons_of_ne_nil (Nat.toDigits_ne_nil (b := 10) (n := n))
    refine ⟨c, ds, Nat.toList_repr.trans hcs, fun d hd => ?_, ?_⟩
    · exact Nat.isDigit_of_mem_toDigits (by decide) (by decide) (hcs ▸ hd)
    · rw [← hcs]
      exact (Nat.ofDigitChars_eq_foldl).symm.trans Nat.ofDigitChars_ten_toDigits
  unfold Exponent.text
  split
  · rename_i n hn
    obtain ⟨c, ds, htext, hds, hvalue⟩ := hdigits n
    rw [htext]
    exact digits hds (by rw [hn, hvalue]; rfl)
  · rename_i n hn
    obtain ⟨c, ds, htext, hds, hvalue⟩ := hdigits (n + 1)
    rw [String.toList_append, htext]
    exact negative hds (by rw [hn, hvalue]; rfl)

end Spells

/-- A word stands for the name that it is, be it a keyword or not. -/
theorem asName?_ofWord (n : Name) : (ofWord n.toList).asName? = some n := by
  simp only [ofWord, String.ofList_toList]
  split
  · rename_i k hk
    rw [asName?, Keyword.asName_eq_spelling, Keyword.ofName?_eq_some_iff.1 hk]
  · rfl

theorem ofWord_of_ofName? {n : Name} {k : Keyword} (h : Keyword.ofName? n = some k) :
    ofWord n.toList = .keyword k := by
  simp [ofWord, h]

theorem ofWord_of_isKeyword_eq_false {n : Name} (h : n.isKeyword = false) : ofWord n.toList = .name n := by
  simp [ofWord, Name.isKeyword_eq_false_iff.1 h]

/-- A name that is a token has the form of a name and is no keyword. -/
def WellFormed : Token → Prop
  | name n => n.isValid = true ∧ n.isKeyword = false
  | _ => True

theorem WellFormed.isValid {t : Token} (h : t.WellFormed) {n : Name} (hn : t.asName? = some n) :
    n.isValid = true := by
  cases t with
  | name m =>
      cases hn
      exact h.1
  | keyword k =>
      cases hn
      rw [Keyword.asName_eq_spelling]
      exact Name.isValid_spelling k
  | _ => cases hn

theorem wellFormed_ofWord {c : Char} {cs : List Char} (hc : Name.isHead c = true)
    (hcs : ∀ d ∈ cs, Name.isTail d = true) : (ofWord (c :: cs)).WellFormed := by
  have hvalid : Name.isValid (String.ofList (c :: cs)) = true :=
    Name.isValid_iff.2 ⟨c, cs, String.toList_ofList, hc, hcs⟩
  simp only [ofWord]
  split
  · trivial
  · rename_i hkeyword
    exact ⟨hvalid, Name.isKeyword_eq_false_iff.2 hkeyword⟩

theorem ofChar?_ne_name {c : Char} {n : Name} : ofChar? c ≠ some (.name n) := by
  unfold ofChar?
  split <;> simp

theorem wellFormed_of_munch {c : Char} {cs : List Char} {t : Token} (h : (Token.munch c cs).1 = some t) :
    t.WellFormed := by
  cases t with
  | name n =>
      by_cases hhead : Name.isHead c = true
      · unfold Token.munch at h
        rw [if_pos hhead] at h
        have htail : ∀ d ∈ cs.takeWhile Name.isTail, Name.isTail d = true :=
          List.all_eq_true.1 List.all_takeWhile
        have hword := wellFormed_ofWord hhead htail
        rwa [Option.some.inj h] at hword
      · exfalso
        simp only [Token.munch, if_neg hhead] at h
        -- Outside of words, every branch gives a number, a fixed token or none.
        split at h
        · simp at h
        split at h
        · split at h
          · simp at h
          · split at h <;> simp at h
        split at h
        · split at h <;> simp at h
        split at h
        · split at h <;> simp at h
        · exact ofChar?_ne_name h
  | _ => trivial

/-- No token that is read is a name out of form or a keyword as a name. -/
theorem wellFormed_of_scanFrom {offset : Nat} {cs : List Char} {l : Lexeme}
    (h : Piece.lexeme l ∈ scanFrom offset cs) : l.token.WellFormed := by
  fun_induction scanFrom offset cs with
  | case1 => cases h
  | case2 offset c cs hblank ih => exact ih h
  | case3 offset c cs hblank m text stop piece ih =>
      rcases List.mem_cons.1 h with hl | h
      · cases hm : m.1 with
        | none => simp [piece, hm] at hl
        | some t =>
            obtain rfl : l = ⟨t, text, ⟨offset, stop⟩⟩ := by simpa [piece, hm] using hl
            exact wellFormed_of_munch hm
      · exact ih h

end Token

/-- A text is readable throughout if its pieces are lexemes. -/
theorem Lexeme.eq_map_of_ofPieces {ps : List Piece} {ls : List Lexeme} (h : ofPieces ps = .ok ls) :
    ps = ls.map Piece.lexeme := by
  induction ps generalizing ls with
  | nil =>
      cases h
      rfl
  | cons p ps ih =>
      cases p with
      | unreadable s => cases h
      | lexeme l =>
          rw [ofPieces] at h
          cases hps : ofPieces ps with
          | error s => simp [hps, Except.map] at h
          | ok ls' =>
              simp only [hps, Except.map, Except.ok.injEq] at h
              subst h
              rw [List.map_cons, ← ih hps]

theorem Lexeme.wellFormed_of_readAll {source : String} {ls : List Lexeme} (h : readAll source = .ok ls)
    {l : Lexeme} (hl : l ∈ ls) : l.token.WellFormed := by
  have hmem : Piece.lexeme l ∈ scanFrom 0 source.toList := by
    rw [← scan, eq_map_of_ofPieces h]
    exact List.mem_map_of_mem hl
  exact Token.wellFormed_of_scanFrom hmem

/-- Where the piece stands. -/
def Piece.span : Piece → Span
  | lexeme l => l.span
  | unreadable span => span

/-- The pieces stand one after the other, and none is empty. -/
theorem ascending_scanFrom (offset : Nat) (cs : List Char) :
    (∀ p ∈ scanFrom offset cs, offset ≤ p.span.start ∧ p.span.start < p.span.stop) ∧
      (scanFrom offset cs).Pairwise fun p q => p.span.stop ≤ q.span.start := by
  fun_induction scanFrom offset cs with
  | case1 => exact ⟨by simp, .nil⟩
  | case2 offset c cs hblank ih =>
      exact ⟨fun p hp => ⟨Nat.le_trans (Nat.le_add_right _ _) (ih.1 p hp).1, (ih.1 p hp).2⟩, ih.2⟩
  | case3 offset c cs hblank m text stop piece ih =>
      have hpiece : piece.span = ⟨offset, stop⟩ := by
        simp only [piece]
        split <;> rfl
      have htext : text.utf8ByteSize ≠ 0 := by
        intro h
        have hempty := congrArg String.toList (String.utf8ByteSize_eq_zero_iff.1 h)
        simp [text] at hempty
      have hstop : offset < stop := Nat.lt_add_of_pos_right (Nat.pos_of_ne_zero htext)
      refine ⟨fun p hp => ?_, List.pairwise_cons.2 ⟨fun p hp => ?_, ih.2⟩⟩
      · rcases List.mem_cons.1 hp with rfl | hp
        · rw [hpiece]
          exact ⟨Nat.le_refl offset, hstop⟩
        · exact ⟨Nat.le_trans (Nat.le_of_lt hstop) (ih.1 p hp).1, (ih.1 p hp).2⟩
      · rw [hpiece]
        exact (ih.1 p hp).1

/-- Of two lexemes the first one starts before the second one. -/
theorem Lexeme.ascending_of_readAll {source : String} {ls : List Lexeme} (h : readAll source = .ok ls) :
    ls.Pairwise fun l l' => l.span.start < l'.span.start := by
  obtain ⟨hnonempty, hpieces⟩ := ascending_scanFrom 0 source.toList
  rw [← scan, eq_map_of_ofPieces h] at hnonempty hpieces
  refine (List.pairwise_map.1 hpieces).imp_of_mem fun hl _ hstop => ?_
  exact Nat.lt_of_lt_of_le (hnonempty _ (List.mem_map_of_mem hl)).2 hstop

end Tabula
