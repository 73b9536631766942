import Tabula.Proofs.Results
import Tabula.Proofs.Spelling
import Tabula.Proofs.TrackingReaders

/-!
# Syntax errors are at the first impossible token

The parsers report an error of syntax neither too early nor too late.  What stands before an unexpected token, or
before the slash of a second division, is the beginning of a sentence, and it is none together with the token; a text
that ends too early can be completed.  Sentences are those of the grammar alone, whatever units are declared.

An error carries the place of a lexeme in the text.  Lexemes stand one after the other, so the place tells which lexeme
it is.
-/

namespace Tabula

/-- A lexeme of `ls` stands at this place, and it is the first one that is impossible: the lexemes before it begin a
sentence of the language, and together with it they do not. -/
def FirstImpossibleAt (L : Language Token) (ls : List Lexeme) (span : Span) : Prop :=
  (∃ l ∈ ls, l.span = span) ∧ ∀ i l, ls[i]? = some l → l.span = span →
    Viable L ((ls.take i).map Lexeme.token) ∧ ¬ Viable L ((ls.take (i + 1)).map Lexeme.token)

/-- What an error of syntax says about the lexemes of a text: an unexpected token and a second division are the first
impossible lexeme, and a text that ends too early is a proper beginning of a sentence. -/
def ParseError.AtFirstImpossible (L : Language Token) (ls : List Lexeme) : ParseError → Prop
  | unexpectedToken span _ _ | chainedDivision span => FirstImpossibleAt L ls span
  | unexpectedEnd _ => ∃ w, w ≠ [] ∧ ls.map Lexeme.token ++ w ∈ L
  | unreadable _ | invalidExponent _ | duplicateField _ _ | unknownUnit _ => True

/-- Lexemes that stand one after the other are told apart by their places. -/
theorem FirstImpossible.at {L : Language Token} {ls : List Lexeme} {l : Lexeme} (h : FirstImpossible L ls l)
    (hls : ls.Pairwise fun l l' => l.span.start < l'.span.start) : FirstImpossibleAt L ls l.span := by
  obtain ⟨used, rest, rfl, hviable, himpossible⟩ := h
  obtain ⟨-, hrest, hused⟩ := List.pairwise_append.1 hls
  refine ⟨⟨l, by simp, rfl⟩, fun i l' hi hspan => ?_⟩
  have hindex : i = used.length := by
    rcases Nat.lt_trichotomy i used.length with hlt | heq | hgt
    · rw [List.getElem?_append_left hlt] at hi
      have hbefore := hused l' (List.mem_of_getElem? hi) l List.mem_cons_self
      rw [hspan] at hbefore
      exact absurd hbefore (Nat.lt_irrefl _)
    · exact heq
    · rw [List.getElem?_append_right (Nat.le_of_lt hgt), List.getElem?_cons, if_neg (by omega)] at hi
      have hbehind := List.rel_of_pairwise_cons hrest (List.mem_of_getElem? hi)
      rw [hspan] at hbehind
      exact absurd hbehind (Nat.lt_irrefl _)
  have htake : (used ++ l :: rest).take (used.length + 1) = used ++ [l] := by simp [List.take_append]
  rw [hindex, List.take_left, htake]
  exact ⟨hviable, himpossible⟩

theorem ParseError.Locates.atFirstImpossible {L : Language Token} {ls : List Lexeme} {e : ParseError}
    (h : e.Locates L ls) (hls : ls.Pairwise fun l l' => l.span.start < l'.span.start) :
    e.AtFirstImpossible L ls := by
  cases e with
  | unexpectedToken span found expected =>
      obtain ⟨l, hl, rfl⟩ := h
      exact hl.at hls
  | chainedDivision span =>
      obtain ⟨l, hl, rfl⟩ := h
      exact hl.at hls
  | unexpectedEnd expected => exact h
  | unreadable | invalidExponent | duplicateField | unknownUnit => trivial

/-- A reader that keeps track of a language stops at the first impossible token when it reads a whole text. -/
theorem parseAll_atFirstImpossible {α : Type} {L : Language Token} {source : String} {ls : List Lexeme}
    {reader : (ts : List Lexeme) → Except ParseError (Parsed α ts.length)} {e : ParseError}
    (hreader : ∀ ts, Tracks L 1 ts (reader ts)) (hls : Lexeme.readAll source = .ok ls)
    (h : parseAll reader source = .error e) : e.AtFirstImpossible L ls := by
  refine ParseError.Locates.atFirstImpossible ?_ (Lexeme.ascending_of_readAll hls)
  simp only [parseAll, hls] at h
  cases hread : reader ls with
  | error e' =>
      rw [hread] at h
      cases h
      exact (hreader ls).error e hread
  | ok r =>
      have hadvances := (hreader ls).ok r hread
      simp only [hread, bind, Except.bind] at h
      split at h
      · cases h
      · rename_i l after hrest
        cases h
        -- A whole text has been read, and nothing can follow it.
        refine hadvances.locates ?_
        rw [hrest]
        have hend : Follows [l.token] 1 := .one
        exact ⟨l, .head hend.nonempty (hend.avoids _ (by simp)), rfl⟩

/-- An error of syntax in a written type or unit is about the first token that is impossible in the grammar. -/
theorem parse_error_atFirstImpossible {units : UnitCatalog} {source : String} {ls : List Lexeme}
    (hls : Lexeme.readAll source = .ok ls) :
    (∀ e, Scheme.parse units source = .error e → e.AtFirstImpossible (Ebnf.ref .type).language ls) ∧
    (∀ e, UnitScheme.parse units source = .error e → e.AtFirstImpossible (Ebnf.ref .unit).language ls) := by
  constructor
  · intro e
    refine parseAll_atFirstImpossible (fun ts => ?_) hls
    rw [← mul_one (Ebnf.ref .type).language]
    exact Scheme.tracks_read .one
  · intro e
    refine parseAll_atFirstImpossible (fun ts => ?_) hls
    rw [← mul_one (Ebnf.ref .unit).language]
    exact UnitScheme.tracks_read .one

/-- In `[Number{m/s/s}]` the second slash is impossible, and everything before it is possible. -/
theorem parse_error_atFirstImpossible_of_second_slash :
    let L := (Ebnf.ref .type).language
    let before : List Token := [.lbracket, .keyword .number, .lbrace, .name "m", .div, .name "s"]
    Scheme.parse .builtin "[Number{m/s/s}]" = .error (.chainedDivision ⟨11, 12⟩) ∧
      Viable L before ∧ ¬ Viable L (before ++ [.div]) := by
  intro L before
  let unit : List Lexeme := [⟨.name "m", "m", ⟨8, 9⟩⟩, ⟨.div, "/", ⟨9, 10⟩⟩, ⟨.name "s", "s", ⟨10, 11⟩⟩,
    ⟨.div, "/", ⟨11, 12⟩⟩, ⟨.name "s", "s", ⟨12, 13⟩⟩, ⟨.rbrace, "\x7d", ⟨13, 14⟩⟩, ⟨.rbracket, "]", ⟨14, 15⟩⟩]
  have hls : Lexeme.readAll "[Number{m/s/s}]" = .ok (⟨.lbracket, "[", ⟨0, 1⟩⟩ ::
      ⟨.keyword .number, "Number", ⟨1, 7⟩⟩ :: ⟨.lbrace, "\x7b", ⟨7, 8⟩⟩ :: unit) :=
    toOption_eq_some_iff.1 (by decide +kernel)
  have hm : UnitCatalog.builtin.get "m" = .ok ⟨"m", "metre"⟩ := rfl
  have hs : UnitCatalog.builtin.get "s" = .ok ⟨"s", "second"⟩ := rfl
  have hunit : UnitScheme.readQuotient .builtin unit = .error (.chainedDivision ⟨11, 12⟩) := by
    simp [unit, UnitScheme.readQuotient, UnitScheme.readSingle, UnitScheme.readPower, Token.asName?, hm, hs,
      Parsed.widen, bind, Except.bind, pure, Except.pure, throw, throwThe, MonadExceptOf.throw]
  have hparse : Scheme.parse .builtin "[Number{m/s/s}]" = .error (.chainedDivision ⟨11, 12⟩) := by
    simp only [Scheme.parse, parseAll, hls]
    rw [Scheme.read, Scheme.read]
    simp [Scheme.primitive?, Scheme.readNumber, Lexeme.eat, UnitScheme.read, hunit, bind, Except.bind]
  have himpossible := ((parse_error_atFirstImpossible hls).1 _ hparse).2 6 _ rfl rfl
  exact ⟨hparse, himpossible⟩

end Tabula
