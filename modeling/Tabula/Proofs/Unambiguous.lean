import Tabula.Proofs.GrammarReading
import Tabula.Proofs.Results

/-!
# One value for each sequence of tokens

The grammar is ambiguous in none of the nonterminals that a whole text is read as: a sequence of tokens
derives at most one type and at most one unit.

The rules alone do not show this at a glance, since records, function types and arguments begin with the same
parenthesis and since a product of quotients is derived from its last factor backwards.  The argument is that
the readers accept whatever is derived, and a reader has only one result.
-/

namespace Tabula

open Parsed (Yields)

/-- A reader yields one value and one rest at most. -/
theorem Parsed.Yields.unique {α : Type} {n : Nat} {x : Except ParseError (Parsed α n)} {v w : α}
    {rest after : List Lexeme} (hv : Yields x v rest) (hw : Yields x w after) : v = w ∧ rest = after := by
  obtain ⟨r, hr, rfl, rfl⟩ := hv
  obtain ⟨r', hr', rfl, rfl⟩ := hw
  obtain rfl : r = r' := Except.ok.inj (hr.symm.trans hr')
  exact ⟨rfl, rfl⟩

/-- The token with a place that nothing depends on. -/
def Token.unplaced (t : Token) : Lexeme :=
  ⟨t, "", ⟨0, 0⟩⟩

@[simp] theorem Token.map_unplaced (ts : List Token) : (ts.map Token.unplaced).map Lexeme.token = ts := by
  rw [List.map_map]
  exact List.map_id ts

section Derived

variable {units : UnitCatalog}

theorem Derives.type_unique {ts : List Token} {t t' : Scheme} (h : Derives units ts (.type t))
    (h' : Derives units ts (.type t')) : t = t' := by
  rw [← Token.map_unplaced ts] at h h'
  exact (h.yields_type.unique h'.yields_type).1

theorem Derives.unit_unique {ts : List Token} {u u' : UnitScheme} (h : Derives units ts (.unit u))
    (h' : Derives units ts (.unit u')) : u = u' := by
  rw [← Token.map_unplaced ts] at h h'
  exact (h.yields_unit.unique h'.yields_unit).1

end Derived

section Parse

variable {source : String} {ls : List Lexeme}

/-- A text whose lexemes are known is accepted as a type if they form it. -/
theorem Scheme.parse_eq_ok_iff_of_readAll (h : Lexeme.readAll source = .ok ls) {units : UnitCatalog} {t : Scheme} :
    Scheme.parse units source = .ok t ↔ Derives units (ls.map Lexeme.token) (.type t) := by
  rw [Scheme.parse_eq_ok_iff]
  constructor
  · rintro ⟨ls', hls', hderives⟩
    obtain rfl : ls = ls' := Except.ok.inj (h.symm.trans hls')
    exact hderives
  · exact fun hderives => ⟨ls, h, hderives⟩

/-- A text whose lexemes are known is accepted as a unit if they form it. -/
theorem UnitScheme.parse_eq_ok_iff_of_readAll (h : Lexeme.readAll source = .ok ls) {units : UnitCatalog}
    {u : UnitScheme} : UnitScheme.parse units source = .ok u ↔ Derives units (ls.map Lexeme.token) (.unit u) := by
  rw [UnitScheme.parse_eq_ok_iff]
  constructor
  · rintro ⟨ls', hls', hderives⟩
    obtain rfl : ls = ls' := Except.ok.inj (h.symm.trans hls')
    exact hderives
  · exact fun hderives => ⟨ls, h, hderives⟩

end Parse

/-- A text that can be cut into tokens is accepted with a value exactly if the grammar derives its tokens with
that value, and no tokens are derived with two values. -/
theorem parse_iff_derives (units : UnitCatalog) {source : String} {ls : List Lexeme}
    (h : Lexeme.readAll source = .ok ls) :
    (∀ t, Scheme.parse units source = .ok t ↔ Derives units (ls.map Lexeme.token) (.type t)) ∧
      (∀ u, UnitScheme.parse units source = .ok u ↔ Derives units (ls.map Lexeme.token) (.unit u)) ∧
      (∀ ts t t', Derives units ts (.type t) → Derives units ts (.type t') → t = t') ∧
      ∀ ts u u', Derives units ts (.unit u) → Derives units ts (.unit u') → u = u' :=
  ⟨fun _ => Scheme.parse_eq_ok_iff_of_readAll h, fun _ => UnitScheme.parse_eq_ok_iff_of_readAll h,
    fun _ _ _ => Derives.type_unique, fun _ _ _ => Derives.unit_unique⟩

/-- An open record with an optional field, where the field and a unit are named like keywords and the quotient
is a factor of a product. -/
theorem parse_iff_derives_of_keyword_names :
    let two : Exponent := ⟨2, by decide, by decide⟩
    let units : UnitCatalog := ⟨[.named ⟨"m", "metre"⟩, .named ⟨"Date", "day"⟩], default, Suggestion.score⟩
    let source := "(Number?: Box({m*m/Date^2})(a), ...)"
    let tokens : List Token := [.lparen, .keyword .number, .question, .colon, .name "Box", .lparen, .lbrace,
      .name "m", .times, .name "m", .div, .keyword .date, .pow, .int two, .rbrace, .rparen, .lparen, .name "a",
      .rparen, .comma, .ellipsis, .rparen]
    let unit : UnitScheme := ⟨[(.unit ⟨"Date", "day"⟩, ⟨-2, by decide, by decide⟩),
      (.unit ⟨"m", "metre"⟩, two)], by decide, by decide⟩
    let t : Scheme := .record [⟨"Number", .apply "Box" [.unit unit, .type (.ident "a")], false⟩] false
    Scheme.parse units source = .ok t ∧ ∀ t', Derives units tokens (.type t') → t' = t := by
  intro two units source tokens unit t
  have hlex : (Lexeme.readAll source).map (List.map Lexeme.token) = .ok tokens :=
    toOption_eq_some_iff.1 (by decide +kernel)
  obtain ⟨ls, hls, htokens⟩ := map_eq_ok_iff.1 hlex
  obtain ⟨htype, -, hunique, -⟩ := parse_iff_derives units hls
  have hm : Derives units [.name "m"] (.single (.single (.unit ⟨"m", "metre"⟩))) := .firstPower (.unitName rfl rfl)
  have hdate : Derives units ([.keyword .date] ++ [.pow, .int two]) (.single _) := .power (.unitName rfl rfl) rfl
  have hunit : Derives units [.name "m", .times, .name "m", .div, .keyword .date, .pow, .int two] (.unit unit) :=
    .times (.oneQuotient (.oneSingle hm)) (.divided hm hdate rfl) rfl
  have hbox := Derives.tagged (n := "Box") (.unitArg hunit (.typeArg (.tagged (n := "a") .noArgs) .noArgs))
  have hderives : Derives units tokens (.type t) :=
    .record (.moreFields (.optional (t := .keyword .number) rfl hbox) .dots) (by decide)
  exact ⟨(htype t).2 (htokens ▸ hderives), fun t' ht' => hunique tokens t' t ht' hderives⟩

end Tabula
