import Mathlib.Data.String.Basic
import Tabula.Proofs.LongestTokens

/-!
# Nothing of a source text is lost

The places of the pieces are counted in bytes, and here they are taken back to the text.  Every piece is a slice of the
source text that starts and ends between characters; no two pieces overlap; and a character that is in no piece is a
blank.  What each piece is depends on its slice and on the text behind it alone.

A text is a valid name exactly if it is one token that can stand for that name.
-/

namespace Tabula

open String (utf8Len)

namespace Span

/-- The part of the source text at the span. -/
def slice (source : String) (s : Span) : String :=
  String.Pos.Raw.extract source ⟨s.start⟩ ⟨s.stop⟩

/-- The source text behind the span. -/
def behind (source : String) (s : Span) : String :=
  String.Pos.Raw.extract source ⟨s.stop⟩ source.rawEndPos

/-- The span is not empty, and its ends are boundaries of characters of the source text. -/
structure Sliceable (source : String) (s : Span) : Prop where
  nonempty : s.start < s.stop
  start : String.Pos.Raw.IsValid source ⟨s.start⟩
  stop : String.Pos.Raw.IsValid source ⟨s.stop⟩

section Split

variable {source : String} {before text after : List Char}

theorem isValid_of_split (h : source.toList = before ++ after) : String.Pos.Raw.IsValid source ⟨utf8Len before⟩ := by
  have hvalid := (String.Pos.Raw.isValid_rawEndPos (s := .ofList before)).append_right (.ofList after)
  rwa [← String.ofList_append, ← h, String.ofList_toList, String.rawEndPos_ofList] at hvalid

theorem sliceable_of_split (h : source.toList = before ++ text ++ after) (htext : text ≠ []) :
    Sliceable source ⟨utf8Len before, utf8Len before + utf8Len text⟩ where
  nonempty := Nat.lt_add_of_pos_right (Nat.pos_of_ne_zero (mt String.utf8Len_eq_zero.1 htext))
  start := isValid_of_split (h.trans (List.append_assoc _ _ _))
  stop := String.utf8Len_append before text ▸ isValid_of_split h

theorem slice_of_split (h : source.toList = before ++ text ++ after) :
    slice source ⟨utf8Len before, utf8Len before + utf8Len text⟩ = .ofList text := by
  rw [slice, ← String.ofList_toList (s := source), h]
  exact String.extract_of_valid before text after

theorem behind_of_split (h : source.toList = before ++ text ++ after) :
    behind source ⟨utf8Len before, utf8Len before + utf8Len text⟩ = .ofList after := by
  have hend : source.rawEndPos = ⟨utf8Len (before ++ text) + utf8Len after⟩ := by
    rw [← String.ofList_toList (s := source), h, String.rawEndPos_ofList, String.utf8Len_append]
  have hextract := String.extract_of_valid (before ++ text) after []
  rwa [List.append_nil, ← h, String.ofList_toList, ← hend, String.utf8Len_append] at hextract

end Split

end Span

/-- The token of the piece, if it is one. -/
def Piece.token? : Piece → Option Token
  | lexeme l => some l.token
  | unreadable _ => none

/-- The pieces make up the source text, apart from blanks. -/
structure LosesNothing (source : String) (pieces : List Piece) : Prop where
  /-- No piece is empty, and none cuts through a character. -/
  sliceable : ∀ p ∈ pieces, p.span.Sliceable source
  /-- The pieces stand one after the other without overlapping. -/
  ascending : pieces.Pairwise fun p q => p.span.stop ≤ q.span.start
  /-- A character in no piece is a blank. -/
  between : ∀ before c after, source.toList = before ++ c :: after →
    (∀ p ∈ pieces, ¬ (p.span.start ≤ utf8Len before ∧ utf8Len before < p.span.stop)) →
    c = ' ' ∨ c = '\t' ∨ c = '\r' ∨ c = '\n'
  /-- A piece is the longest token at its place, or none starts there, or it is an integer out of range. -/
  cutsOff : ∀ p ∈ pieces,
    Token.CutsOff (p.span.slice source).toList (p.span.behind source).toList p.token?
  text : ∀ l, .lexeme l ∈ pieces → l.text = l.span.slice source

section Scan

/-- The piece stands in the text `cs`, which starts at the byte `offset`. -/
def Piece.StandsIn (offset : Nat) (cs : List Char) (p : Piece) : Prop :=
  ∃ before text after, cs = before ++ text ++ after ∧ text ≠ [] ∧
    p.span = ⟨offset + utf8Len before, offset + utf8Len before + utf8Len text⟩ ∧
    Token.CutsOff text after p.token? ∧ ∀ l, p = .lexeme l → l.text = .ofList text

theorem Piece.StandsIn.shift {offset : Nat} (front : List Char) {cs : List Char} {p : Piece}
    (h : p.StandsIn (offset + utf8Len front) cs) : p.StandsIn offset (front ++ cs) := by
  obtain ⟨before, text, after, rfl, htext, hspan, hcuts, hlexeme⟩ := h
  refine ⟨front ++ before, text, after, by simp only [List.append_assoc], htext, ?_, hcuts, hlexeme⟩
  rw [hspan, String.utf8Len_append, Nat.add_assoc offset]

theorem standsIn_of_scanFrom {offset : Nat} {cs : List Char} {p : Piece} (h : p ∈ scanFrom offset cs) :
    p.StandsIn offset cs := by
  fun_induction scanFrom offset cs with
  | case1 => cases h
  | case2 offset c cs hblank ih =>
      exact Piece.StandsIn.shift [c] (by simpa using ih h)
  | case3 offset c cs hblank m text stop piece ih =>
      have hcs : c :: cs = (c :: cs.take m.2) ++ cs.drop m.2 := by simp
      have hstop : stop = offset + utf8Len (c :: cs.take m.2) := by rw [← String.utf8ByteSize_ofList]
      rcases List.mem_cons.1 h with rfl | h
      · have hcuts : Token.CutsOff (c :: cs.take m.2) (cs.drop m.2) m.1 :=
          Token.cutsOff_munch (by simpa using hblank) cs
        refine ⟨[], c :: cs.take m.2, cs.drop m.2, hcs, List.cons_ne_nil _ _, ?_⟩
        rw [utf8Len, Nat.add_zero, ← hstop]
        cases hm : m.1 with
        | none =>
            have hpiece : piece = .unreadable ⟨offset, stop⟩ := by simp only [piece, hm]
            rw [hm] at hcuts
            rw [hpiece]
            exact ⟨rfl, hcuts, fun l hl => by cases hl⟩
        | some t =>
            have hpiece : piece = .lexeme ⟨t, text, ⟨offset, stop⟩⟩ := by simp only [piece, hm]
            rw [hm] at hcuts
            rw [hpiece]
            refine ⟨rfl, hcuts, fun l hl => ?_⟩
            cases hl
            rfl
      · rw [hcs]
        exact Piece.StandsIn.shift _ (hstop ▸ ih h)

/-- A character that is in no piece is a blank. -/
theorem isBlank_of_scanFrom (offset : Nat) {cs before after : List Char} {c : Char} (hcs : cs = before ++ c :: after)
    (h : ∀ p ∈ scanFrom offset cs,
      ¬ (p.span.start ≤ offset + utf8Len before ∧ offset + utf8Len before < p.span.stop)) :
    Token.isBlank c = true := by
  fun_induction scanFrom offset cs generalizing before with
  | case1 => simp at hcs
  | case2 offset d cs hblank ih =>
      cases before with
      | nil =>
          obtain ⟨rfl, -⟩ := List.cons.inj hcs
          exact hblank
      | cons d' before =>
          obtain ⟨rfl, htail⟩ := List.cons.inj hcs
          refine ih htail fun p hp => ?_
          have hnot := h p hp
          rw [String.utf8Len_cons] at hnot
          omega
  | case3 offset d cs hblank m text stop piece =>
      rename_i ih
      have hsplit : d :: cs = (d :: cs.take m.2) ++ cs.drop m.2 := by simp
      have hstop : stop = offset + utf8Len (d :: cs.take m.2) := by rw [← String.utf8ByteSize_ofList]
      have hspan : piece.span = ⟨offset, stop⟩ := by
        simp only [piece]
        split <;> rfl
      -- The character is not in the first piece, so that piece is a part of what stands before it.
      have hnot : ¬ offset + utf8Len before < stop := by
        intro hlt
        exact h piece List.mem_cons_self (by rw [hspan]; exact ⟨Nat.le_add_right _ _, hlt⟩)
      obtain ⟨before', rfl, hdrop⟩ : ∃ before', before = (d :: cs.take m.2) ++ before' ∧
          cs.drop m.2 = before' ++ c :: after := by
        rcases List.append_eq_append_iff.1 (hsplit.symm.trans hcs) with hbehind | ⟨inner, htake, hdrop⟩
        · exact hbehind
        · have hinner : utf8Len inner = 0 := by
            rw [hstop, htake, String.utf8Len_append] at hnot
            omega
          rw [String.utf8Len_eq_zero.1 hinner] at htake hdrop
          exact ⟨[], by rw [htake, List.append_nil, List.append_nil], hdrop.symm⟩
      refine ih hdrop fun p hp => ?_
      have hnot := h p (List.mem_cons_of_mem _ hp)
      rw [String.utf8Len_append, ← Nat.add_assoc, ← hstop] at hnot
      exact hnot

/-- The source text around a piece. -/
theorem exists_split_of_mem_scan {source : String} {p : Piece} (hp : p ∈ scan source) :
    ∃ before text after, source.toList = before ++ text ++ after ∧ text ≠ [] ∧
      p.span = ⟨utf8Len before, utf8Len before + utf8Len text⟩ ∧ Token.CutsOff text after p.token? ∧
      ∀ l, p = .lexeme l → l.text = .ofList text := by
  simpa only [Piece.StandsIn, Nat.zero_add] using standsIn_of_scanFrom hp

theorem sliceable_of_mem_scan {source : String} {p : Piece} (hp : p ∈ scan source) : p.span.Sliceable source := by
  obtain ⟨before, text, after, hsource, htext, hspan, -⟩ := exists_split_of_mem_scan hp
  rw [hspan]
  exact Span.sliceable_of_split hsource htext

theorem cutsOff_of_mem_scan {source : String} {p : Piece} (hp : p ∈ scan source) :
    Token.CutsOff (p.span.slice source).toList (p.span.behind source).toList p.token? := by
  obtain ⟨before, text, after, hsource, -, hspan, hcuts, -⟩ := exists_split_of_mem_scan hp
  rw [hspan, Span.slice_of_split hsource, Span.behind_of_split hsource, String.toList_ofList, String.toList_ofList]
  exact hcuts

theorem text_of_mem_scan {source : String} {l : Lexeme} (hl : .lexeme l ∈ scan source) :
    l.text = l.span.slice source := by
  obtain ⟨before, text, after, hsource, -, hspan, -, hlexeme⟩ := exists_split_of_mem_scan hl
  have hspan : l.span = ⟨utf8Len before, utf8Len before + utf8Len text⟩ := hspan
  rw [hspan, Span.slice_of_split hsource]
  exact hlexeme l rfl

/-- The lexer loses nothing, finds the longest tokens, and gives up one character or one integer where there is none. -/
theorem scan_losesNothing (source : String) : LosesNothing source (scan source) where
  sliceable := fun _ => sliceable_of_mem_scan
  ascending := (ascending_scanFrom 0 source.toList).2
  between := by
    intro before c after hsource hnot
    have hblank : Token.isBlank c = true := isBlank_of_scanFrom 0 hsource (by simpa [scan] using hnot)
    simpa [Token.isBlank, or_assoc] using hblank
  cutsOff := fun _ => cutsOff_of_mem_scan
  text := fun _ => text_of_mem_scan

end Scan

section Names

variable {n : Name}

/-- A valid name is one token from end to end. -/
theorem scan_of_isValid (h : n.isValid = true) :
    scan n = [.lexeme ⟨Token.ofWord n.toList, n, ⟨0, n.utf8ByteSize⟩⟩] := by
  obtain ⟨c, cs, htext, hhead, htail⟩ := Name.isValid_iff.1 h
  have hblank := Token.isBlank_of_isTail (Name.isTail_of_isHead hhead)
  have hmunch : Token.munch c cs = (some (Token.ofWord (c :: cs)), cs.length) := by
    simpa using Token.munch_word hhead htail Token.boundary_nil
  have hname : String.ofList (c :: cs) = n := by rw [← htext, String.ofList_toList]
  rw [scan, htext, scanFrom, if_neg (by simp [hblank]), hmunch]
  simp [scanFrom, hname]

theorem isValid_of_scan {l : Lexeme} (h : scan n = [.lexeme l]) (hname : l.token.asName? = some n) :
    n.isValid = true := by
  have hmem : Piece.lexeme l ∈ scanFrom 0 n.toList := by
    rw [← scan, h]
    exact List.mem_singleton_self _
  exact (Token.wellFormed_of_scanFrom hmem).isValid hname

/-- Names are valid exactly if they are read as one token that stands for them, and keywords are those names that are
read as another token than a name. -/
theorem isValid_iff_scan (n : Name) :
    (n.isValid = true ↔
      ∃ l, scan n = [.lexeme l] ∧ l.span = ⟨0, n.utf8ByteSize⟩ ∧ l.token.asName? = some n) ∧
    ∀ l, n.isValid = true → scan n = [.lexeme l] → (n.isKeyword = true ↔ ∀ m, l.token ≠ .name m) := by
  refine ⟨⟨fun h => ⟨_, scan_of_isValid h, rfl, Token.asName?_ofWord n⟩, ?_⟩, fun l h hl => ?_⟩
  · rintro ⟨l, hl, -, hname⟩
    exact isValid_of_scan hl hname
  · rw [scan_of_isValid h] at hl
    cases hl
    cases hkeyword : Keyword.ofName? n with
    | some k =>
        have hreserved : n.isKeyword = true := Name.isKeyword_iff.2 ⟨k, Keyword.ofName?_eq_some_iff.1 hkeyword⟩
        simp [Token.ofWord_of_ofName? hkeyword, hreserved]
    | none =>
        have hfree : n.isKeyword = false := Name.isKeyword_eq_false_iff.2 hkeyword
        simp [Token.ofWord_of_isKeyword_eq_false hfree, hfree]

/-- `DateTime` is a keyword although `Date` is one, and `DateTimeZ` is a name although it starts with one. -/
theorem isValid_iff_scan_of_extended_keyword :
    ∃ l l', scan "DateTime" = [.lexeme l] ∧ scan "DateTimeZ" = [.lexeme l'] ∧
      (∀ m, l.token ≠ .name m) ∧ ∃ m, l'.token = .name m := by
  obtain ⟨l, hl, -⟩ := (isValid_iff_scan "DateTime").1.1 (by decide)
  obtain ⟨l', hl', -⟩ := (isValid_iff_scan "DateTimeZ").1.1 (by decide)
  have hkeyword := (isValid_iff_scan "DateTime").2 l (by decide) hl
  have hname := (isValid_iff_scan "DateTimeZ").2 l' (by decide) hl'
  refine ⟨l, l', hl, hl', hkeyword.1 (by decide), ?_⟩
  by_contra hnot
  exact absurd (hname.2 (not_exists.1 hnot)) (by decide)

end Names

end Tabula
