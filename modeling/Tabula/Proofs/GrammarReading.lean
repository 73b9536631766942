import Tabula.Proofs.AscendingKeys
import Tabula.Proofs.Grammar
import Tabula.Proofs.Readers

/-!
# The readers accept the grammar

The readers read exactly the phrases that the grammar derives, with the values that it gives them.

A phrase is read in the context of the lexemes that follow it: the arguments of a tagged type, for instance,
go on as long as an opening parenthesis follows.  `Phrase.ReadFrom` says for each nonterminal which reader
reads it and which lexemes may follow.  In the other direction, a reader that succeeds has used up lexemes
that form a phrase.
-/

namespace Tabula

open Parsed (Yields)
open Lexeme (firstToken?)

/-- How the phrase begins, as far as a reader depends on it. -/
def Phrase.Opening (ts : List Token) : Phrase → Prop
  | .type _ => ∃ t rest, ts = t :: rest ∧ t ≠ .rparen ∧ t ≠ .lbrace
  | .params _ => ∃ t rest, ts = t :: rest ∧ t ≠ .rparen
  | .field _ => ∃ t rest, ts = t :: rest ∧ t.asName?.isSome
  | .fields _ _ => ∃ t rest, ts = t :: rest ∧ (t = .ellipsis ∨ t.asName?.isSome)
  | _ => True

theorem Derives.opening {units : UnitCatalog} {ts : List Token} {p : Phrase} (h : Derives units ts p) :
    p.Opening ts := by
  induction h with
  | oneQuotient | times | oneSingle | divided | one | bracketed | firstPower | power | unitName | unitVar
  | noArgs | typeArg | unitArg => trivial
  | primitive | plainNumber | number | array | constant | function | emptyRecord | record | tagged =>
      exact ⟨_, _, rfl, by simp, by simp⟩
  | lastParam _ ih =>
      obtain ⟨t, rest, rfl, ht, -⟩ := ih
      exact ⟨t, rest, rfl, ht⟩
  | moreParams _ _ ih =>
      obtain ⟨t, rest, rfl, ht, -⟩ := ih
      exact ⟨t, _, rfl, ht⟩
  | dots => exact ⟨_, _, rfl, .inl rfl⟩
  | lastField _ ih =>
      obtain ⟨t, rest, rfl, ht⟩ := ih
      exact ⟨t, rest, rfl, .inr ht⟩
  | moreFields _ _ ih =>
      obtain ⟨t, rest, rfl, ht⟩ := ih
      exact ⟨t, _, rfl, .inr ht⟩
  | required hn => exact ⟨_, _, rfl, by simp [hn]⟩
  | optional hn => exact ⟨_, _, rfl, by simp [hn]⟩

/-- The phrase is read from the lexemes `ls` when others follow that cannot belong to it. -/
def Phrase.ReadFrom (units : UnitCatalog) (ls : List Lexeme) : Phrase → Prop
  | .unit u => ∀ rest v after, firstToken? rest ≠ some .pow → firstToken? rest ≠ some .div →
      (∀ start stop, Yields (UnitScheme.readFactors units start u stop rest) v after) →
      Yields (UnitScheme.read units (ls ++ rest)) v after
  | .quotient u => ∀ rest, firstToken? rest ≠ some .pow → firstToken? rest ≠ some .div →
      Yields (UnitScheme.readQuotient units (ls ++ rest)) u rest
  | .single u => ∀ rest, firstToken? rest ≠ some .pow →
      Yields (UnitScheme.readSingle units (ls ++ rest)) u rest
  | .atom a => ∀ rest v after, (∀ stop, Yields (UnitScheme.readPower (.single a) stop rest) v after) →
      Yields (UnitScheme.readSingle units (ls ++ rest)) v after
  | .type t => ∀ rest, firstToken? rest ≠ some .lparen → firstToken? rest ≠ some .lbrace →
      Yields (Scheme.read units (ls ++ rest)) t rest
  | .params ps => ∀ c rest, c.token = .rparen → Yields (Scheme.readParams units (ls ++ c :: rest)) ps rest
  | .field f => ∀ rest, firstToken? rest ≠ some .lparen → firstToken? rest ≠ some .lbrace →
      ∃ s, Yields (Scheme.readField units (ls ++ rest)) (f, s) rest
  | .fields fs complete => ∀ earlier c rest, c.token = .rparen → (fs.map Field.name).Nodup →
      (∀ f ∈ fs, f.name ∉ earlier.map Field.name) →
      Yields (Scheme.readFields units earlier (ls ++ c :: rest))
        (.record (fs.foldl (fun acc f => Field.insert f acc) earlier) complete) rest
  | .args as => ∀ stop rest, firstToken? rest ≠ some .lparen →
      Yields (Scheme.readArgs units stop (ls ++ rest)) as rest

theorem Phrase.ReadFrom.unit {units : UnitCatalog} {ls : List Lexeme} {u : UnitScheme}
    (h : Phrase.ReadFrom units ls (.unit u)) {l : Lexeme} (rest : List Lexeme)
    (hl : l.token = .rparen ∨ l.token = .rbrace) :
    Yields (UnitScheme.read units (ls ++ l :: rest)) u (l :: rest) := by
  refine h (l :: rest) u (l :: rest) ?_ ?_ fun start stop => ?_
  · rcases hl with hl | hl <;> simp [hl]
  · rcases hl with hl | hl <;> simp [hl]
  · refine (UnitScheme.yields_readFactors_of_first_ne ?_).2 ⟨rfl, rfl⟩
    rcases hl with hl | hl <;> simp [hl]

/-- Lexemes for tokens between two brackets, with others behind them. -/
theorem Lexeme.exists_of_enclosed {ls : List Lexeme} {o c : Token} {ts : List Token}
    (h : ls.map Lexeme.token = o :: ts ++ [c]) :
    ∃ l inner l', (∀ rest, ls ++ rest = l :: (inner ++ l' :: rest)) ∧ l.token = o ∧
      inner.map Lexeme.token = ts ∧ l'.token = c := by
  obtain ⟨l, _, rfl, hl, h⟩ := List.map_eq_cons_iff.1 h
  obtain ⟨inner, _, rfl, hinner, h⟩ := List.map_eq_append_iff.1 h
  obtain ⟨l', _, rfl, hl', h⟩ := List.map_eq_cons_iff.1 h
  obtain rfl := List.map_eq_nil_iff.1 h
  exact ⟨l, inner, l', by simp, hl, hinner, hl'⟩

/-- Lexemes for tokens on both sides of a separator, with others behind them. -/
theorem Lexeme.exists_of_separated {ls : List Lexeme} {t : Token} {ts ts' : List Token}
    (h : ls.map Lexeme.token = ts ++ t :: ts') :
    ∃ left l right, (∀ rest, ls ++ rest = left ++ l :: (right ++ rest)) ∧ l.token = t ∧
      left.map Lexeme.token = ts ∧ right.map Lexeme.token = ts' := by
  obtain ⟨left, _, rfl, hleft, h⟩ := List.map_eq_append_iff.1 h
  obtain ⟨l, right, rfl, hl, hright⟩ := List.map_eq_cons_iff.1 h
  exact ⟨left, l, right, by simp, hl, hleft, hright⟩

theorem Lexeme.firstToken?_append {ls : List Lexeme} {t : Token} {ts : List Token}
    (h : ls.map Lexeme.token = t :: ts) (rest : List Lexeme) : firstToken? (ls ++ rest) = some t := by
  obtain ⟨l, ls, rfl, rfl, -⟩ := List.map_eq_cons_iff.1 h
  rfl

theorem Token.ne_of_asName? {t t' : Token} (h : t.asName?.isSome) (h' : t'.asName? = none) :
    t ≠ t' := by
  rintro rfl
  simp [h'] at h

/-- The phrase is read from all lexemes for the tokens. -/
def Phrase.Accepted (units : UnitCatalog) (ts : List Token) (p : Phrase) : Prop :=
  ∀ ls : List Lexeme, ls.map Lexeme.token = ts → p.ReadFrom units ls

section Rules

-- The rules whose readers have to look at what comes next; the others are short.

variable {units : UnitCatalog}

open Phrase (Accepted)

theorem Phrase.Accepted.constant {ts : List Token} {r : Scheme} (ih : Accepted units ts (.type r)) :
    Accepted units (.lparen :: .lparen :: .rparen :: .arrow :: ts ++ [.rparen]) (.type (.function [] r)) := by
  intro ls hls rest hparen hbrace
  obtain ⟨l, _, rfl, hl, hls⟩ := List.map_eq_cons_iff.1 hls
  obtain ⟨l', _, rfl, hl', hls⟩ := List.map_eq_cons_iff.1 hls
  obtain ⟨l'', _, rfl, hl'', hls⟩ := List.map_eq_cons_iff.1 hls
  obtain ⟨a, inner, c, happend, ha, hinner, hc⟩ := Lexeme.exists_of_enclosed hls
  simp only [List.cons_append]
  rw [happend]
  exact (Scheme.yields_read_function hl hl').2 (Scheme.yields_readFunction.2
    ⟨[], a, _, _, c, (Scheme.yields_readParamList_rparen hl'').2 ⟨rfl, rfl⟩, ha,
      ih _ hinner _ (by simp [hc]) (by simp [hc]), hc, rfl⟩)

theorem Phrase.Accepted.function {ts ts' : List Token} {ps : List Scheme} {r : Scheme}
    (hp : Derives units ts (.params ps)) (ihp : Accepted units ts (.params ps))
    (ihr : Accepted units ts' (.type r)) :
    Accepted units (.lparen :: .lparen :: ts ++ .rparen :: .arrow :: ts' ++ [.rparen])
      (.type (.function ps r)) := by
  intro ls hls rest hparen hbrace
  simp only [List.cons_append, List.append_assoc] at hls
  obtain ⟨l, _, rfl, hl, hls⟩ := List.map_eq_cons_iff.1 hls
  obtain ⟨l', _, rfl, hl', hls⟩ := List.map_eq_cons_iff.1 hls
  obtain ⟨params, p, right, happend, hp', hparams, hright⟩ := Lexeme.exists_of_separated hls
  obtain ⟨a, inner, c, happend', ha, hinner, hc⟩ := Lexeme.exists_of_enclosed hright
  obtain ⟨first, others, hfirst, hne⟩ := hp.opening
  have hlist : firstToken? (params ++ p :: (a :: (inner ++ c :: rest))) ≠ some .rparen := by
    rw [Lexeme.firstToken?_append (hparams.trans hfirst)]
    simpa using hne
  simp only [List.cons_append]
  rw [happend, happend']
  exact (Scheme.yields_read_function hl hl').2 (Scheme.yields_readFunction.2
    ⟨_, a, _, _, c, (Scheme.yields_readParamList_of_first_ne hlist).2 (ihp _ hparams p _ hp'), ha,
      ihr _ hinner _ (by simp [hc]) (by simp [hc]), hc, rfl⟩)

theorem Phrase.Accepted.record {ts : List Token} {fs : List (Field Scheme)} {complete : Bool}
    (h : Derives units ts (.fields fs complete)) (distinct : (fs.map Field.name).Nodup)
    (ih : Accepted units ts (.fields fs complete)) :
    Accepted units (.lparen :: ts ++ [.rparen]) (.type (.recordOf fs complete)) := by
  intro ls hls rest hparen hbrace
  obtain ⟨l, inner, c, happend, hl, hinner, hc⟩ := Lexeme.exists_of_enclosed hls
  obtain ⟨first, others, hfirst, hopen⟩ := h.opening
  have hfirst := Lexeme.firstToken?_append (hinner.trans hfirst) (c :: rest)
  have hne : first ≠ .lparen ∧ first ≠ .rparen := by
    rcases hopen with rfl | hname
    · exact ⟨by simp, by simp⟩
    · exact ⟨Token.ne_of_asName? hname rfl, Token.ne_of_asName? hname rfl⟩
  rw [happend]
  refine (Scheme.yields_read_record hl (by simpa [hfirst] using hne.1)).2 ?_
  refine (Scheme.yields_readRecord_of_first_ne (by simpa [hfirst] using hne.2)).2 ?_
  exact ih _ hinner [] c rest hc distinct (by simp)

theorem Phrase.Accepted.lastField {ts : List Token} {f : Field Scheme} (h : Derives units ts (.field f))
    (ih : Accepted units ts (.field f)) : Accepted units ts (.fields [f] true) := by
  intro ls hls earlier c rest hc distinct hnew
  obtain ⟨first, others, hfirst, hname⟩ := h.opening
  have hfirst := Lexeme.firstToken?_append (hls.trans hfirst) (c :: rest)
  have hdots : first ≠ .ellipsis := Token.ne_of_asName? hname rfl
  obtain ⟨s, hs⟩ := ih _ hls (c :: rest) (by simp [hc]) (by simp [hc])
  refine (Scheme.yields_readFields_of_first_ne (by simpa [hfirst] using hdots)).2 ?_
  exact ⟨_, s, c, rest, hs, Ascending.find?_eq_none_iff.2 (hnew _ List.mem_cons_self),
    .inl ⟨hc, rfl, rfl⟩⟩

theorem Phrase.Accepted.moreFields {ts ts' : List Token} {f : Field Scheme} {fs : List (Field Scheme)}
    {complete : Bool} (h : Derives units ts (.field f)) (ihf : Accepted units ts (.field f))
    (ihfs : Accepted units ts' (.fields fs complete)) :
    Accepted units (ts ++ .comma :: ts') (.fields (f :: fs) complete) := by
  intro ls hls earlier c rest hc distinct hnew
  obtain ⟨left, l, right, happend, hl, hleft, hright⟩ := Lexeme.exists_of_separated hls
  obtain ⟨first, others, hfirst, hname⟩ := h.opening
  have hfirst := Lexeme.firstToken?_append (hleft.trans hfirst) (l :: (right ++ c :: rest))
  have hdots : first ≠ .ellipsis := Token.ne_of_asName? hname rfl
  obtain ⟨s, hs⟩ := ihf _ hleft (l :: (right ++ c :: rest)) (by simp [hl]) (by simp [hl])
  obtain ⟨hhead, htail⟩ := List.nodup_cons.1 distinct
  rw [happend]
  refine (Scheme.yields_readFields_of_first_ne (by simpa [hfirst] using hdots)).2 ?_
  refine ⟨_, s, l, _, hs, Ascending.find?_eq_none_iff.2 (hnew _ List.mem_cons_self),
    .inr ⟨hl, ihfs _ hright _ c rest hc htail fun f hf hmem => ?_⟩⟩
  rcases Ascending.mem_map_insert.1 hmem with heq | hmem
  · exact hhead (heq ▸ List.mem_map_of_mem hf)
  · exact hnew f (List.mem_cons_of_mem _ hf) hmem

theorem Phrase.Accepted.typeArg {ts ts' : List Token} {t : Scheme} {as : List (Arg UnitScheme Scheme)}
    (ht : Derives units ts (.type t)) (iht : Accepted units ts (.type t)) (ihas : Accepted units ts' (.args as)) :
    Accepted units (.lparen :: ts ++ .rparen :: ts') (.args (.type t :: as)) := by
  intro ls hls stop rest hparen
  obtain ⟨l, _, rfl, hl, hls⟩ := List.map_eq_cons_iff.1 hls
  obtain ⟨type, c, args, happend, hc, htype, hargs⟩ := Lexeme.exists_of_separated hls
  obtain ⟨first, others, hfirst, -, hbrace⟩ := ht.opening
  have hfirst := Lexeme.firstToken?_append (htype.trans hfirst) (c :: (args ++ rest))
  rw [List.cons_append, happend]
  refine (Scheme.yields_readArgs_lparen hl).2 ⟨_, c, _, _, ?_, hc, ihas _ hargs _ rest hparen, rfl⟩
  refine (Scheme.yields_readArg_of_first_ne (by simpa [hfirst] using hbrace)).2 ?_
  exact ⟨_, iht _ htype _ (by simp [hc]) (by simp [hc]), rfl⟩

theorem Phrase.Accepted.unitArg {ts ts' : List Token} {u : UnitScheme} {as : List (Arg UnitScheme Scheme)}
    (ihu : Accepted units ts (.unit u)) (ihas : Accepted units ts' (.args as)) :
    Accepted units (.lparen :: .lbrace :: ts ++ .rbrace :: .rparen :: ts') (.args (.unit u :: as)) := by
  intro ls hls stop rest hparen
  obtain ⟨l, _, rfl, hl, hls⟩ := List.map_eq_cons_iff.1 hls
  obtain ⟨o, _, rfl, ho, hls⟩ := List.map_eq_cons_iff.1 hls
  obtain ⟨unit, b, _, happend, hb, hunit, hls⟩ := Lexeme.exists_of_separated hls
  obtain ⟨c, args, rfl, hc, hargs⟩ := List.map_eq_cons_iff.1 hls
  simp only [List.cons_append]
  rw [happend]
  refine (Scheme.yields_readArgs_lparen hl).2 ⟨_, c, _, _, ?_, hc, ihas _ hargs _ rest hparen, rfl⟩
  exact (Scheme.yields_readArg_lbrace ho).2 ⟨_, b, (ihu _ hunit).unit _ (.inr hb), hb, rfl⟩

end Rules

/-- The readers read what the grammar derives. -/
theorem Derives.accepted {units : UnitCatalog} {ts : List Token} {p : Phrase} (h : Derives units ts p) :
    p.Accepted units ts := by
  induction h with
  | oneQuotient _ ih =>
      intro ls hls rest v after hpow hdiv hafter
      exact UnitScheme.yields_read_of_quotient (ih _ hls rest hpow hdiv) hafter
  | times _ _ hw ihu ihv =>
      intro ls hls rest v after hpow hdiv hafter
      obtain ⟨left, l, right, happend, hl, hleft, hright⟩ := Lexeme.exists_of_separated hls
      rw [happend]
      refine ihu _ hleft _ v after (by simp [hl]) (by simp [hl]) fun start stop => ?_
      exact UnitScheme.yields_readFactors_of_quotient hl (ihv _ hright rest hpow hdiv) hw (hafter start)
  | oneSingle _ ih =>
      intro ls hls rest hpow hdiv
      exact UnitScheme.yields_readQuotient.2 (.inl ⟨ih _ hls rest hpow, hdiv⟩)
  | divided _ _ hw ihu ihv =>
      intro ls hls rest hpow hdiv
      obtain ⟨left, l, right, happend, hl, hleft, hright⟩ := Lexeme.exists_of_separated hls
      rw [happend]
      exact UnitScheme.yields_readQuotient.2 (.inr ⟨_, l, _, _, ihu _ hleft _ (by simp [hl]), hl,
        ihv _ hright rest hpow, hdiv, hw⟩)
  | one =>
      intro ls hls rest hpow
      obtain ⟨l, rfl, hl⟩ := List.map_eq_singleton_iff.1 hls
      exact (UnitScheme.yields_readSingle_int hl).2 ⟨rfl, rfl, rfl⟩
  | bracketed _ ih =>
      intro ls hls rest hpow
      obtain ⟨l, inner, c, happend, hl, hinner, hc⟩ := Lexeme.exists_of_enclosed hls
      rw [happend]
      exact (UnitScheme.yields_readSingle_lparen hl).2 ⟨c, (ih _ hinner).unit rest (.inl hc), hc⟩
  | firstPower _ ih =>
      intro ls hls rest hpow
      exact ih _ hls rest _ rest fun stop => (UnitScheme.yields_readPower_of_first_ne hpow).2 ⟨rfl, rfl⟩
  | power _ hw ih =>
      intro ls hls rest hpow
      obtain ⟨atom, l, right, happend, hl, hatom, hright⟩ := Lexeme.exists_of_separated hls
      obtain ⟨l', rfl, hl'⟩ := List.map_eq_singleton_iff.1 hright
      rw [happend]
      exact ih _ hatom _ _ rest fun stop => (UnitScheme.yields_readPower_pow hl).2 ⟨l', _, rfl, hl', hw⟩
  | unitName hn hu =>
      intro ls hls rest v after hafter
      obtain ⟨l, rfl, rfl⟩ := List.map_eq_singleton_iff.1 hls
      exact (UnitScheme.yields_readSingle_name hn).2 ⟨_, hu, hafter _⟩
  | unitVar hn =>
      intro ls hls rest v after hafter
      obtain ⟨l, _, rfl, hl, hls⟩ := List.map_eq_cons_iff.1 hls
      obtain ⟨l', rfl, rfl⟩ := List.map_eq_singleton_iff.1 hls
      exact (UnitScheme.yields_readSingle_unitVar hl).2 ⟨l', _, rest, rfl, hn, hafter _⟩
  | primitive hk =>
      intro ls hls rest hparen hbrace
      obtain ⟨l, rfl, hl⟩ := List.map_eq_singleton_iff.1 hls
      exact (Scheme.yields_read_primitive hl hk).2 ⟨rfl, rfl⟩
  | plainNumber =>
      intro ls hls rest hparen hbrace
      obtain ⟨l, rfl, hl⟩ := List.map_eq_singleton_iff.1 hls
      exact (Scheme.yields_read_number hl).2 ((Scheme.yields_readNumber_of_first_ne hbrace).2 ⟨rfl, rfl⟩)
  | number _ ih =>
      intro ls hls rest hparen hbrace
      obtain ⟨l, _, rfl, hl, hls⟩ := List.map_eq_cons_iff.1 hls
      obtain ⟨o, inner, c, happend, ho, hinner, hc⟩ := Lexeme.exists_of_enclosed hls
      rw [List.cons_append, happend]
      exact (Scheme.yields_read_number hl).2 ((Scheme.yields_readNumber_lbrace ho).2
        ⟨_, c, (ih _ hinner).unit rest (.inr hc), hc, rfl⟩)
  | array _ ih =>
      intro ls hls rest hparen hbrace
      obtain ⟨l, inner, c, happend, hl, hinner, hc⟩ := Lexeme.exists_of_enclosed hls
      rw [happend]
      exact (Scheme.yields_read_lbracket hl).2 ⟨_, c, ih _ hinner _ (by simp [hc]) (by simp [hc]), hc, rfl⟩
  | constant _ ih => exact .constant ih
  | function hp _ ihp ihr => exact .function hp ihp ihr
  | lastParam _ ih =>
      intro ls hls c rest hc
      exact Scheme.yields_readParams.2 (.inl ⟨_, c, ih _ hls _ (by simp [hc]) (by simp [hc]), hc, rfl⟩)
  | moreParams _ _ iht ihp =>
      intro ls hls c rest hc
      obtain ⟨left, l, right, happend, hl, hleft, hright⟩ := Lexeme.exists_of_separated hls
      rw [happend]
      exact Scheme.yields_readParams.2 (.inr ⟨_, l, _, _, iht _ hleft _ (by simp [hl]) (by simp [hl]), hl,
        ihp _ hright c rest hc, rfl⟩)
  | emptyRecord =>
      intro ls hls rest hparen hbrace
      obtain ⟨l, _, rfl, hl, hls⟩ := List.map_eq_cons_iff.1 hls
      obtain ⟨c, rfl, hc⟩ := List.map_eq_singleton_iff.1 hls
      exact (Scheme.yields_read_record hl (by simp [hc])).2 ((Scheme.yields_readRecord_rparen hc).2 ⟨rfl, rfl⟩)
  | record h distinct ih => exact .record h distinct ih
  | dots =>
      intro ls hls earlier c rest hc distinct hnew
      obtain ⟨l, rfl, hl⟩ := List.map_eq_singleton_iff.1 hls
      exact (Scheme.yields_readFields_ellipsis hl).2 ⟨c, rfl, hc, rfl⟩
  | lastField h ih => exact .lastField h ih
  | moreFields h _ ihf ihfs => exact .moreFields h ihf ihfs
  | required hn _ ih =>
      intro ls hls rest hparen hbrace
      obtain ⟨l, _, rfl, rfl, htail⟩ := List.map_eq_cons_iff.1 hls
      obtain ⟨c, type, rfl, hc, htype⟩ := List.map_eq_cons_iff.1 htail
      exact ⟨l.span, Scheme.yields_readField.2 ⟨l, [], c, _, rfl, hn, rfl, rfl, hc, ih _ htype rest hparen hbrace⟩⟩
  | optional hn _ ih =>
      intro ls hls rest hparen hbrace
      obtain ⟨l, _, rfl, rfl, htail⟩ := List.map_eq_cons_iff.1 hls
      obtain ⟨q, _, rfl, hq, htail⟩ := List.map_eq_cons_iff.1 htail
      obtain ⟨c, type, rfl, hc, htype⟩ := List.map_eq_cons_iff.1 htail
      exact ⟨l.span, Scheme.yields_readField.2 ⟨l, [q], c, _, rfl, hn, rfl, by simp [hq], hc,
        ih _ htype rest hparen hbrace⟩⟩
  | tagged _ ih =>
      intro ls hls rest hparen hbrace
      obtain ⟨l, args, rfl, hl, hargs⟩ := List.map_eq_cons_iff.1 hls
      exact (Scheme.yields_read_name hl).2 ⟨_, ih _ hargs _ rest hparen, rfl⟩
  | noArgs =>
      intro ls hls stop rest hparen
      obtain rfl := List.map_eq_nil_iff.1 hls
      exact (Scheme.yields_readArgs_of_first_ne hparen).2 ⟨rfl, rfl⟩
  | typeArg ht _ iht ihas => exact .typeArg ht iht ihas
  | unitArg _ _ ihu ihas => exact .unitArg ihu ihas

/-- The lexemes before `rest` form the phrase. -/
def Phrase.Precedes (units : UnitCatalog) (ls rest : List Lexeme) (p : Phrase) : Prop :=
  ∃ used, ls = used ++ rest ∧ Derives units (used.map Lexeme.token) p

namespace UnitScheme

variable {units : UnitCatalog} {n : Nat}

/-- A unit name or variable followed by a power, if there is one. -/
theorem precedes_of_yields_readPower {a : Atom Name} {v : UnitScheme} {stop : Nat} {pre ts rest : List Lexeme}
    (ha : Derives units (pre.map Lexeme.token) (.atom a))
    (h : Yields (readPower (.single a) stop ts) v rest) :
    Phrase.Precedes units (pre ++ ts) rest (.single v) := by
  by_cases hpow : firstToken? ts = some .pow
  · obtain ⟨l, ts, rfl, hl⟩ := Lexeme.firstToken?_eq_some_iff.1 hpow
    obtain ⟨l', p, rfl, hl', hv⟩ := (yields_readPower_pow hl).1 h
    refine ⟨pre ++ [l, l'], by simp, ?_⟩
    simpa [hl, hl'] using ha.power hv
  · obtain ⟨rfl, rfl⟩ := (yields_readPower_of_first_ne hpow).1 h
    exact ⟨pre, rfl, ha.firstPower⟩

section Parts

variable (ih : ∀ ts : List Lexeme, ts.length < n → ∀ v rest, Yields (read units ts) v rest →
  Phrase.Precedes units ts rest (.unit v))

include ih

theorem precedes_of_yields_readSingle
    {ts rest : List Lexeme} {v : UnitScheme} (hn : ts.length ≤ n) (h : Yields (readSingle units ts) v rest) :
    Phrase.Precedes units ts rest (.single v) := by
  obtain _ | ⟨l, ts⟩ := ts
  · exact absurd h not_yields_readSingle_nil
  by_cases hint : ∃ p, l.token = .int p
  · obtain ⟨p, hl⟩ := hint
    obtain ⟨rfl, rfl, rfl⟩ := (yields_readSingle_int hl).1 h
    exact ⟨[l], rfl, by simpa [hl] using Derives.one⟩
  by_cases hparen : l.token = .lparen
  · obtain ⟨c, hu, hc⟩ := (yields_readSingle_lparen hparen).1 h
    obtain ⟨used, rfl, hused⟩ := ih ts hn v _ hu
    exact ⟨l :: used ++ [c], by simp, by simpa [hparen, hc] using hused.bracketed⟩
  by_cases hvar : l.token = .unitVar
  · obtain ⟨l', name, mid, rfl, hname, hy⟩ := (yields_readSingle_unitVar hvar).1 h
    have ha : Derives units ([l, l'].map Lexeme.token) (.atom (.var name)) := by
      simpa [hvar] using Derives.unitVar hname
    exact precedes_of_yields_readPower ha hy
  cases hname : l.token.asName? with
  | none => exact absurd h (not_yields_readSingle (fun p hp => hint ⟨p, hp⟩) hparen hvar hname)
  | some name =>
      obtain ⟨w, hw, hy⟩ := (yields_readSingle_name hname).1 h
      have ha : Derives units ([l].map Lexeme.token) (.atom (.unit w)) := .unitName hname hw
      exact precedes_of_yields_readPower ha hy

theorem precedes_of_yields_readQuotient
    {ts rest : List Lexeme} {v : UnitScheme} (hn : ts.length ≤ n) (h : Yields (readQuotient units ts) v rest) :
    Phrase.Precedes units ts rest (.quotient v) := by
  rcases yields_readQuotient.1 h with ⟨hv, -⟩ | ⟨w, l, mid, x, hw, hl, hx, -, hv⟩
  · obtain ⟨used, rfl, hused⟩ := precedes_of_yields_readSingle ih hn hv
    exact ⟨used, rfl, hused.oneSingle⟩
  · obtain ⟨left, rfl, hleft⟩ := precedes_of_yields_readSingle ih hn hw
    have hmid : mid.length ≤ n := by
      simp only [List.length_append, List.length_cons] at hn
      omega
    obtain ⟨right, rfl, hright⟩ := precedes_of_yields_readSingle ih hmid hx
    exact ⟨left ++ l :: right, by simp, by simpa [hl] using hleft.divided hright hv⟩

/-- The loop over further factors extends the product that was read before it. -/
theorem precedes_of_yields_readFactors
    {start stop : Nat} {u v : UnitScheme} {pre ts rest : List Lexeme} (hn : ts.length ≤ n)
    (hu : Derives units (pre.map Lexeme.token) (.unit u))
    (h : Yields (readFactors units start u stop ts) v rest) :
    Phrase.Precedes units (pre ++ ts) rest (.unit v) := by
  induction hlength : ts.length using Nat.strongRecOn generalizing ts stop u pre with
  | _ m ihm =>
      by_cases htimes : firstToken? ts = some .times
      · obtain ⟨l, ts, rfl, hl⟩ := Lexeme.firstToken?_eq_some_iff.1 htimes
        obtain ⟨factor, w, hfactor, hw, hy⟩ := (yields_readFactors_times hl).1 h
        have hn : ts.length + 1 ≤ n := hn
        obtain ⟨used, hts, hused⟩ := precedes_of_yields_readQuotient ih (by omega) ⟨factor, hfactor, rfl, rfl⟩
        have hwithin := factor.within
        have hm : ts.length + 1 = m := hlength
        have hpre : Derives units ((pre ++ l :: used).map Lexeme.token) (.unit w) := by
          simpa [hl] using hu.times hused hw
        obtain ⟨all, hall, hderives⟩ := ihm factor.rest.length (by omega) (by omega) hpre hy rfl
        have hts : pre ++ l :: ts = pre ++ l :: (used ++ factor.rest) := congrArg (pre ++ l :: ·) hts
        exact ⟨all, hts.trans (by simpa using hall), hderives⟩
      · obtain ⟨rfl, rfl⟩ := (yields_readFactors_of_first_ne htimes).1 h
        exact ⟨pre, rfl, hu⟩

end Parts

/-- What is read as a unit is a unit of the grammar. -/
theorem precedes_of_yields_read {ts rest : List Lexeme} {v : UnitScheme} (h : Yields (read units ts) v rest) :
    Phrase.Precedes units ts rest (.unit v) := by
  induction hlength : ts.length using Nat.strongRecOn generalizing ts v rest with
  | _ m ih =>
      have ih : ∀ ts : List Lexeme, ts.length < m → ∀ v rest, Yields (read units ts) v rest →
          Phrase.Precedes units ts rest (.unit v) := fun ts hts v rest hy => ih _ hts hy rfl
      obtain ⟨first, hfirst, hy⟩ := yields_read.1 h
      obtain ⟨used, hts, hused⟩ :=
      precedes_of_yields_readQuotient ih (Nat.le_of_eq hlength) ⟨first, hfirst, rfl, rfl⟩
      have hwithin := first.within
      obtain ⟨all, hall, hderives⟩ := precedes_of_yields_readFactors ih (by omega) hused.oneQuotient hy
      exact ⟨all, hts.trans hall, hderives⟩

end UnitScheme

namespace Scheme

variable {units : UnitCatalog} {n : Nat} {t : Scheme} {ts rest : List Lexeme}

theorem precedes_of_yields_readNumber {l : Lexeme} {stop : Nat} (hl : l.token = .keyword .number)
    (h : Yields (readNumber units stop ts) t rest) : Phrase.Precedes units (l :: ts) rest (.type t) := by
  by_cases hbrace : firstToken? ts = some .lbrace
  · obtain ⟨o, ts, rfl, ho⟩ := Lexeme.firstToken?_eq_some_iff.1 hbrace
    obtain ⟨u, c, hu, hc, rfl⟩ := (yields_readNumber_lbrace ho).1 h
    obtain ⟨used, rfl, hused⟩ := UnitScheme.precedes_of_yields_read hu
    exact ⟨l :: o :: used ++ [c], by simp, by simpa [hl, ho, hc] using hused.number⟩
  · obtain ⟨rfl, rfl⟩ := (yields_readNumber_of_first_ne hbrace).1 h
    exact ⟨[l], rfl, by simpa [hl] using Derives.plainNumber⟩

section Parts

-- What a reader makes of a part is known for shorter lists of lexemes only, so that the lemmas about the
-- readers of the parts can serve in the induction on the length.
variable (ih : ∀ ts : List Lexeme, ts.length < n → ∀ t rest, Yields (read units ts) t rest →
  Phrase.Precedes units ts rest (.type t))

include ih

theorem precedes_of_yields_readParams {ps : List Scheme} (hn : ts.length < n)
    (h : Yields (readParams units ts) ps rest) :
    ∃ c, c.token = .rparen ∧ Phrase.Precedes units ts (c :: rest) (.params ps) := by
  induction hlength : ts.length using Nat.strongRecOn generalizing ts ps with
  | _ m ihm =>
      rcases yields_readParams.1 h with ⟨t, c, ht, hc, rfl⟩ | ⟨t, l, mid, qs, ht, hl, hqs, rfl⟩
      · obtain ⟨used, hts, hused⟩ := ih ts hn t _ ht
        exact ⟨c, hc, used, hts, hused.lastParam⟩
      · obtain ⟨used, rfl, hused⟩ := ih ts hn t _ ht
        simp only [List.length_append, List.length_cons] at hn hlength
        obtain ⟨c, hc, others, rfl, hothers⟩ := ihm mid.length (by omega) (by omega) hqs rfl
        exact ⟨c, hc, used ++ l :: others, by simp, by simpa [hl] using hused.moreParams hothers⟩

theorem precedes_of_yields_readFunction {l l' : Lexeme} (hl : l.token = .lparen) (hl' : l'.token = .lparen)
    (hn : ts.length < n) (h : Yields (readFunction units ts) t rest) :
    Phrase.Precedes units (l :: l' :: ts) rest (.type t) := by
  obtain ⟨ps, a, mid, r, c, hps, ha, hr, hc, rfl⟩ := yields_readFunction.1 h
  by_cases hclose : firstToken? ts = some .rparen
  · obtain ⟨o, ts, rfl, ho⟩ := Lexeme.firstToken?_eq_some_iff.1 hclose
    obtain ⟨rfl, rfl⟩ := (yields_readParamList_rparen ho).1 hps
    simp only [List.length_cons] at hn
    obtain ⟨used, rfl, hused⟩ := ih mid (by omega) r _ hr
    exact ⟨l :: l' :: o :: a :: used ++ [c], by simp, by simpa [hl, hl', ho, ha, hc] using hused.constant⟩
  · have hps := (yields_readParamList_of_first_ne hclose).1 hps
    obtain ⟨o, ho, params, rfl, hparams⟩ := precedes_of_yields_readParams ih hn hps
    simp only [List.length_append, List.length_cons] at hn
    obtain ⟨used, rfl, hused⟩ := ih mid (by omega) r _ hr
    exact ⟨l :: l' :: params ++ o :: a :: used ++ [c], by simp,
      by simpa [hl, hl', ho, ha, hc] using hparams.function hused⟩

theorem precedes_of_yields_readField {f : Field Scheme} {s : Span} (hn : ts.length < n)
    (h : Yields (readField units ts) (f, s) rest) : Phrase.Precedes units ts rest (.field f) := by
  obtain ⟨name, type, required⟩ := f
  obtain ⟨l, mark, c, mid, rfl, hname, -, hmark, hc, htype⟩ := yields_readField.1 h
  simp only [List.length_append, List.length_cons] at hn
  obtain ⟨used, rfl, hused⟩ := ih mid (by omega) type _ htype
  refine ⟨l :: (mark ++ c :: used), by simp, ?_⟩
  cases required with
  | true =>
      obtain rfl : mark = [] := by simpa using hmark
      simpa [hc] using Derives.required hname hused
  | false =>
      have hmark : mark.map Lexeme.token = [.question] := by simpa using hmark
      simpa [hc, hmark] using Derives.optional hname hused

/-- The loop over the fields leaves a closing parenthesis behind them, has met no name twice and none of an
earlier field, and has added them to the earlier ones. -/
theorem precedes_of_yields_readFields {earlier : List (Field Scheme)} (hn : ts.length < n)
    (h : Yields (readFields units earlier ts) t rest) :
    ∃ fs complete c, c.token = .rparen ∧ Phrase.Precedes units ts (c :: rest) (.fields fs complete) ∧
      (fs.map Field.name).Nodup ∧ (∀ f ∈ fs, f.name ∉ earlier.map Field.name) ∧
      t = .record (fs.foldl (fun acc f => Field.insert f acc) earlier) complete := by
  induction hlength : ts.length using Nat.strongRecOn generalizing ts earlier with
  | _ m ihm =>
      by_cases hdots : firstToken? ts = some .ellipsis
      · obtain ⟨l, ts, rfl, hl⟩ := Lexeme.firstToken?_eq_some_iff.1 hdots
        obtain ⟨c, rfl, hc, rfl⟩ := (yields_readFields_ellipsis hl).1 h
        exact ⟨[], false, c, hc, ⟨[l], rfl, by simpa [hl] using Derives.dots⟩, by simp, by simp, rfl⟩
      · obtain ⟨f, s, l, mid, hf, hnew, hlast | hmore⟩ := (yields_readFields_of_first_ne hdots).1 h
        · obtain ⟨hl, rfl, rfl⟩ := hlast
          obtain ⟨used, rfl, hused⟩ := precedes_of_yields_readField ih hn hf
          have hnew : f.name ∉ earlier.map Field.name := Ascending.find?_eq_none_iff.1 hnew
          exact ⟨[f], true, l, hl, ⟨used, rfl, hused.lastField⟩, by simp, by simpa using hnew, rfl⟩
        · obtain ⟨hl, hy⟩ := hmore
          obtain ⟨used, rfl, hused⟩ := precedes_of_yields_readField ih hn hf
          simp only [List.length_append, List.length_cons] at hn hlength
          obtain ⟨fs, complete, c, hc, ⟨others, rfl, hothers⟩, hdistinct, hapart, rfl⟩ :=
            ihm mid.length (by omega) (by omega) hy rfl
          have hnew : f.name ∉ earlier.map Field.name := Ascending.find?_eq_none_iff.1 hnew
          have hapart : ∀ g ∈ fs, g.name ≠ f.name ∧ g.name ∉ earlier.map Field.name := by
            intro g hg
            have hnot := hapart g hg
            rw [Field.insert, Ascending.mem_map_insert] at hnot
            exact not_or.1 hnot
          refine ⟨f :: fs, complete, c, hc, ⟨used ++ l :: others, by simp, ?_⟩, ?_, ?_, rfl⟩
          · simpa [hl] using hused.moreFields hothers
          · refine List.nodup_cons.2 ⟨fun hmem => ?_, hdistinct⟩
            obtain ⟨g, hg, hname⟩ := List.mem_map.1 hmem
            exact (hapart g hg).1 hname
          · exact List.forall_mem_cons.2 ⟨hnew, fun g hg => (hapart g hg).2⟩

theorem precedes_of_yields_readRecord {l : Lexeme} (hl : l.token = .lparen) (hn : ts.length < n)
    (h : Yields (readRecord units ts) t rest) : Phrase.Precedes units (l :: ts) rest (.type t) := by
  by_cases hclose : firstToken? ts = some .rparen
  · obtain ⟨c, ts, rfl, hc⟩ := Lexeme.firstToken?_eq_some_iff.1 hclose
    obtain ⟨rfl, rfl⟩ := (yields_readRecord_rparen hc).1 h
    exact ⟨[l, c], rfl, by simpa [hl, hc] using Derives.emptyRecord⟩
  · have h := (yields_readRecord_of_first_ne hclose).1 h
    obtain ⟨fs, complete, c, hc, ⟨used, rfl, hused⟩, hdistinct, -, rfl⟩ := precedes_of_yields_readFields ih hn h
    refine ⟨l :: used ++ [c], by simp, ?_⟩
    show Derives units _ (.type (.recordOf fs complete))
    simpa [hl, hc] using hused.record hdistinct

theorem precedes_of_yields_readArgs {as : List (Arg UnitScheme Scheme)} {stop : Nat} (hn : ts.length ≤ n)
    (h : Yields (readArgs units stop ts) as rest) : Phrase.Precedes units ts rest (.args as) := by
  induction hlength : ts.length using Nat.strongRecOn generalizing ts as stop with
  | _ m ihm =>
      by_cases hparen : firstToken? ts = some .lparen
      · obtain ⟨l, ts, rfl, hl⟩ := Lexeme.firstToken?_eq_some_iff.1 hparen
        obtain ⟨a, c, mid, bs, ha, hc, hbs, rfl⟩ := (yields_readArgs_lparen hl).1 h
        simp only [List.length_cons] at hn hlength
        by_cases hbrace : firstToken? ts = some .lbrace
        · obtain ⟨o, ts, rfl, ho⟩ := Lexeme.firstToken?_eq_some_iff.1 hbrace
          obtain ⟨u, b, hu, hb, rfl⟩ := (yields_readArg_lbrace ho).1 ha
          obtain ⟨used, rfl, hused⟩ := UnitScheme.precedes_of_yields_read hu
          simp only [List.length_append, List.length_cons] at hn hlength
          obtain ⟨others, rfl, hothers⟩ := ihm mid.length (by omega) (by omega) hbs rfl
          exact ⟨l :: o :: used ++ b :: c :: others, by simp,
            by simpa [hl, ho, hb, hc] using hused.unitArg hothers⟩
        · obtain ⟨t, ht, rfl⟩ := (yields_readArg_of_first_ne hbrace).1 ha
          obtain ⟨used, rfl, hused⟩ := ih ts (by omega) t _ ht
          simp only [List.length_append, List.length_cons] at hn hlength
          obtain ⟨others, rfl, hothers⟩ := ihm mid.length (by omega) (by omega) hbs rfl
          exact ⟨l :: used ++ c :: others, by simp, by simpa [hl, hc] using hused.typeArg hothers⟩
      · obtain ⟨rfl, rfl⟩ := (yields_readArgs_of_first_ne hparen).1 h
        exact ⟨[], rfl, .noArgs⟩

end Parts

/-- What is read as a type is a type of the grammar. -/
theorem precedes_of_yields_read (h : Yields (read units ts) t rest) : Phrase.Precedes units ts rest (.type t) := by
  induction hlength : ts.length using Nat.strongRecOn generalizing ts t rest with
  | _ m ihm =>
      have ih : ∀ ts : List Lexeme, ts.length < m → ∀ t rest, Yields (read units ts) t rest →
          Phrase.Precedes units ts rest (.type t) := fun ts hts t rest hy => ihm _ hts hy rfl
      obtain _ | ⟨l, ts⟩ := ts
      · exact absurd h not_yields_read_nil
      simp only [List.length_cons] at hlength
      by_cases hkeyword : ∃ k, l.token = .keyword k
      · obtain ⟨k, hl⟩ := hkeyword
        cases hk : primitive? k with
        | some p =>
            obtain ⟨rfl, rfl⟩ := (yields_read_primitive hl hk).1 h
            exact ⟨[l], rfl, by simpa [hl] using Derives.primitive hk⟩
        | none =>
            obtain rfl : k = .number := by
              cases k <;> first | rfl | cases hk
            exact precedes_of_yields_readNumber hl ((yields_read_number hl).1 h)
      by_cases hbracket : l.token = .lbracket
      · obtain ⟨e, c, he, hc, rfl⟩ := (yields_read_lbracket hbracket).1 h
        obtain ⟨used, rfl, hused⟩ := ih ts (by omega) e _ he
        exact ⟨l :: used ++ [c], by simp, by simpa [hbracket, hc] using hused.array⟩
      by_cases hparen : l.token = .lparen
      · by_cases hfunction : firstToken? ts = some .lparen
        · obtain ⟨l', ts, rfl, hl'⟩ := Lexeme.firstToken?_eq_some_iff.1 hfunction
          simp only [List.length_cons] at hlength
          exact precedes_of_yields_readFunction ih hparen hl' (by omega) ((yields_read_function hparen hl').1 h)
        · exact precedes_of_yields_readRecord ih hparen (by omega) ((yields_read_record hparen hfunction).1 h)
      by_cases hname : ∃ name, l.token = .name name
      · obtain ⟨name, hl⟩ := hname
        obtain ⟨as, has, rfl⟩ := (yields_read_name hl).1 h
        obtain ⟨used, rfl, hused⟩ := precedes_of_yields_readArgs ih (by omega) has
        exact ⟨l :: used, rfl, by simpa [hl] using hused.tagged⟩
      · exact absurd h (not_yields_read (fun k hk => hkeyword ⟨k, hk⟩) hbracket hparen fun name hl =>
          hname ⟨name, hl⟩)

end Scheme

section Parse

variable {α : Type} {reader : (ts : List Lexeme) → Except ParseError (Parsed α ts.length)} {source : String}
  {v : α}

/-- A text is accepted with a value if it is a sequence of tokens from which the reader yields the value and
leaves nothing. -/
theorem parseAll_eq_ok_iff :
    parseAll reader source = .ok v ↔ ∃ ls, Lexeme.readAll source = .ok ls ∧ Yields (reader ls) v [] := by
  unfold parseAll
  cases hlex : Lexeme.readAll source with
  | error e => simp
  | ok ls =>
      cases hread : reader ls with
      | error e => simp [bind, Except.bind, hread]
      | ok r =>
          obtain ⟨value, stop, rest, within⟩ := r
          cases rest <;> simp [bind, Except.bind, hread, pure, Except.pure]

/-- Lexemes that form a type are read as it. -/
theorem Derives.yields_type {units : UnitCatalog} {ls : List Lexeme} {t : Scheme}
    (h : Derives units (ls.map Lexeme.token) (.type t)) : Yields (Scheme.read units ls) t [] := by
  have hread := h.accepted ls rfl [] (by simp) (by simp)
  rwa [List.append_nil] at hread

/-- Lexemes that form a unit are read as it. -/
theorem Derives.yields_unit {units : UnitCatalog} {ls : List Lexeme} {u : UnitScheme}
    (h : Derives units (ls.map Lexeme.token) (.unit u)) : Yields (UnitScheme.read units ls) u [] := by
  -- No factor is left to be multiplied on, so the loop over further factors returns what it has.
  have hread := h.accepted ls rfl [] u [] (by simp) (by simp) fun start stop =>
    (UnitScheme.yields_readFactors_of_first_ne (by simp)).2 ⟨rfl, rfl⟩
  rwa [List.append_nil] at hread

/-- The texts that are accepted as a type are those that the grammar derives. -/
theorem Scheme.parse_eq_ok_iff {units : UnitCatalog} {t : Scheme} :
    Scheme.parse units source = .ok t ↔
      ∃ ls, Lexeme.readAll source = .ok ls ∧ Derives units (ls.map Lexeme.token) (.type t) := by
  refine parseAll_eq_ok_iff.trans (exists_congr fun ls => and_congr_right fun _ => ⟨fun h => ?_, fun h => ?_⟩)
  · obtain ⟨used, rfl, hused⟩ := Scheme.precedes_of_yields_read h
    simpa using hused
  · exact h.yields_type

/-- The texts that are accepted as a unit are those that the grammar derives. -/
theorem UnitScheme.parse_eq_ok_iff {units : UnitCatalog} {u : UnitScheme} :
    UnitScheme.parse units source = .ok u ↔
      ∃ ls, Lexeme.readAll source = .ok ls ∧ Derives units (ls.map Lexeme.token) (.unit u) := by
  refine parseAll_eq_ok_iff.trans (exists_congr fun ls => and_congr_right fun _ => ⟨fun h => ?_, fun h => ?_⟩)
  · obtain ⟨used, rfl, hused⟩ := UnitScheme.precedes_of_yields_read h
    simpa using hused
  · exact h.yields_unit

end Parse

end Tabula
