import Tabula.Proofs.ErrorPlaces
import Tabula.Proofs.LosslessScan

/-!
# Errors are meaningful

Every error of the parsers tells where it stands in the source text, if it stands anywhere.  A part of the text that is
no token is reported before anything else.  All other errors stand at lexemes of the text, so the place of an error is a
part of the text that is not empty and cuts through no character, and the text that an error shows is the one at its
place.
-/

namespace Tabula

open Lexeme (firstToken? StandsBehind RunsOver)

/-- A further field at the end of a record. -/
theorem Derives.appendField {units : UnitCatalog} {ts ts' : List Token} {fs : List (Field Scheme)} {f : Field Scheme}
    (h : Derives units ts (.fields fs true)) (hf : Derives units ts' (.field f)) :
    Derives units (ts ++ .comma :: ts') (.fields (fs ++ [f]) true) := by
  generalize hp : Phrase.fields fs true = p at h
  induction h generalizing fs with
  | lastField hg =>
      cases hp
      exact .moreFields hg (.lastField hf)
  | moreFields hg _ _ ih =>
      cases hp
      simpa using Derives.moreFields hg (ih rfl)
  | _ => cases hp

theorem Lexeme.rest_eat_suffix (t : Token) (stop : Nat) (ts : List Lexeme) : (eat t stop ts).rest <:+ ts := by
  cases ts with
  | nil => exact List.nil_suffix
  | cons l ts =>
      rw [eat]
      split
      · exact List.suffix_cons l ts
      · exact List.suffix_rfl

namespace Scheme

variable {units : UnitCatalog} {stop n : Nat} {ls ts : List Lexeme}

theorem reports_readNumber (h : ts <:+ ls) : Reports units ls (readNumber units stop ts) := by
  refine .eat (fun l hl hts => ?_) fun hts => ?_
  · rw [hts] at h
    have hunit : StandsBehind [.lparen, .lbrace] ls _ := Lexeme.standsBehind_of_suffix h (by simp [hl])
    exact (UnitScheme.reports_read hunit).bind fun unit _ hrest => .map (.expect hrest) fun _ => rfl
  · obtain ⟨-, hrest⟩ := Lexeme.eat_of_not_first stop hts
    exact .success (by rwa [Parsed.rest_map, hrest])

theorem precedes_of_readField {f : Field Scheme} {span : Span} {rest : List Lexeme}
    (h : Parsed.Yields (readField units ts) (f, span) rest) : (Phrase.field f).Precedes units ts rest :=
  precedes_of_yields_readField (fun _ _ _ _ => precedes_of_yields_read) (Nat.lt_succ_self _) h

/-- The lexemes `ts` go on with a record in which fields with the names of `fields` have been read. -/
def GoesOnWith (units : UnitCatalog) (ls : List Lexeme) (fields : List (Field Scheme)) (ts : List Lexeme) : Prop :=
  ∃ o whole, o :: whole <:+ ls ∧ o.token = .lparen ∧
    (fields = [] ∧ whole = ts ∨
      ∃ earlier comma fs, whole = earlier ++ comma :: ts ∧ comma.token = .comma ∧
        Derives units (earlier.map Lexeme.token) (.fields fs true) ∧
        ∀ name ∈ fields.map Field.name, name ∈ fs.map Field.name)

namespace GoesOnWith

variable {fields : List (Field Scheme)} {f : Field Scheme}

theorem suffix (h : GoesOnWith units ls fields ts) : ts <:+ ls := by
  obtain ⟨o, whole, hls, -, ⟨-, rfl⟩ | ⟨earlier, comma, fs, rfl, -⟩⟩ := h
  · exact Lexeme.suffix_of_cons hls
  · exact Lexeme.suffix_of_cons ((List.suffix_append earlier _).trans (Lexeme.suffix_of_cons hls))

/-- One more field and the comma behind it. -/
theorem step {comma : Lexeme} {rest : List Lexeme} (h : GoesOnWith units ls fields ts)
    (hf : (Phrase.field f).Precedes units ts (comma :: rest)) (hcomma : comma.token = .comma) :
    GoesOnWith units ls (Field.insert f fields) rest := by
  obtain ⟨used, rfl, hused⟩ := hf
  have hnames : ∀ name ∈ (Field.insert f fields).map Field.name, name = f.name ∨ name ∈ fields.map Field.name :=
    fun name hname => Ascending.mem_map_insert.1 hname
  obtain ⟨o, whole, hls, ho, ⟨rfl, rfl⟩ | ⟨earlier, comma', fs, rfl, hcomma', hearlier, hfs⟩⟩ := h
  · exact ⟨o, _, hls, ho, .inr ⟨used, comma, [f], rfl, hcomma, hused.lastField, by simpa using hnames⟩⟩
  · refine ⟨o, _, hls, ho, .inr ⟨earlier ++ comma' :: used, comma, fs ++ [f], by simp, hcomma, ?_, ?_⟩⟩
    · simpa [hcomma'] using hearlier.appendField hused
    · intro name hname
      rcases hnames name hname with rfl | hname
      · simp
      · rw [List.map_append]
        exact List.mem_append_left _ (hfs name hname)

/-- A field of the same name has been read before. -/
theorem repeatedField {span : Span} {rest : List Lexeme} (h : GoesOnWith units ls fields ts)
    (hread : Parsed.Yields (readField units ts) (f, span) rest) (hf : f.name ∈ fields.map Field.name) :
    RepeatedField units ls span f.name := by
  obtain ⟨l, mark, c, mid, hts, hname, hspan, -⟩ := yields_readField.1 hread
  obtain ⟨used, hused, hderives⟩ := precedes_of_readField hread
  obtain ⟨field, rfl⟩ : ∃ field, used = l :: field := by
    obtain ⟨t, rest', htokens, -⟩ := hderives.opening
    obtain ⟨l', field, rfl, -⟩ := List.map_eq_cons_iff.1 htokens
    obtain ⟨rfl, -⟩ := List.cons.inj (hts.symm.trans hused)
    exact ⟨field, rfl⟩
  obtain ⟨o, whole, hls, ho, ⟨rfl, -⟩ | ⟨earlier, comma, fs, rfl, hcomma, hearlier, hfs⟩⟩ := h
  -- The first field of a record has none before it, so there is a comma.
  · cases hf
  · refine ⟨o, earlier, comma, l, field, rest, fs, f, ?_, ho, hearlier, hcomma, hderives, hname, hspan, rfl,
      hfs _ hf⟩
    rw [hused] at hls
    simpa using hls

end GoesOnWith

section Parts

variable (ih : ∀ ts : List Lexeme, ts.length < n → ts <:+ ls → Reports units ls (read units ts))

include ih

theorem reports_readParams (hn : ts.length < n) (h : ts <:+ ls) : Reports units ls (readParams units ts) := by
  obtain ⟨m, hm⟩ : ∃ m, ts.length = m := ⟨_, rfl⟩
  induction m using Nat.strongRecOn generalizing ts with
  | _ m ihm =>
      rw [readParams]
      refine (ih ts hn h).bind fun first _ hfirst => .bind_next fun mark hmark => ?_
      have hwithin := first.within
      rw [hmark] at hfirst hwithin
      simp only [List.length_cons] at hwithin
      split
      · exact .map (ihm mark.rest.length (by omega) (by omega) (Lexeme.suffix_of_cons hfirst) rfl) fun _ => rfl
      · exact .success (Lexeme.suffix_of_cons hfirst)
      · exact .unexpected (Lexeme.mem_of_suffix hfirst)

theorem reports_readParamList (hn : ts.length < n) (h : ts <:+ ls) : Reports units ls (readParamList units ts) := by
  cases ts with
  | nil =>
      rw [readParamList]
      exact reports_readParams ih hn h
  | cons l ts =>
      rw [readParamList]
      split
      · exact .success (Lexeme.suffix_of_cons h)
      · exact reports_readParams ih hn h

theorem reports_readFunction (hn : ts.length < n) (h : ts <:+ ls) : Reports units ls (readFunction units ts) := by
  rw [readFunction]
  refine (reports_readParamList ih hn h).bind fun params _ hparams => ?_
  refine (Reports.expect hparams).bind fun arrow _ harrow => ?_
  have hwithin := params.within
  have hwithin' := arrow.within
  exact (ih arrow.rest (by omega) harrow).bind fun result _ hresult => .map (.expect hresult) fun _ => rfl

theorem reports_readField (hn : ts.length < n) (h : ts <:+ ls) : Reports units ls (readField units ts) := by
  rw [readField]
  refine (Reports.nextName h).bind fun name _ hname => ?_
  have hquestion : (Lexeme.eat .question name.stop name.rest).rest <:+ ls :=
    (Lexeme.rest_eat_suffix _ _ _).trans hname
  refine (Reports.expect hquestion).bind fun colon _ hcolon => ?_
  have hwithin := name.within
  have hwithin' := (Lexeme.eat .question name.stop name.rest).within
  have hwithin'' := colon.within
  exact .map (ih colon.rest (by omega) hcolon) fun _ => rfl

/-- The loop over the fields of a record. -/
theorem reports_readFields {fields : List (Field Scheme)} (hn : ts.length < n)
    (h : GoesOnWith units ls fields ts) : Reports units ls (readFields units fields ts) := by
  obtain ⟨m, hm⟩ : ∃ m, ts.length = m := ⟨_, rfl⟩
  induction m using Nat.strongRecOn generalizing ts fields with
  | _ m ihm =>
      rw [readFields]
      refine .eat (fun l hl hts => ?_) fun _ => ?_
      · have hdots := h.suffix
        rw [hts] at hdots
        exact .map (.expect (Lexeme.suffix_of_cons hdots)) fun _ => rfl
      refine (reports_readField ih hn h.suffix).bind fun field hfield hrest => ?_
      have hyields : Parsed.Yields (readField units ts) (field.value.1, field.value.2) field.rest :=
        ⟨field, hfield, rfl, rfl⟩
      split
      · -- The type of the second field has been read as well when the repetition is found.
        rename_i hfound
        refine .failure (h.repeatedField hyields ?_)
        by_contra hnew
        have hnone : Field.find? field.value.1.name fields = none := Ascending.find?_eq_none_iff.2 hnew
        simp [hnone] at hfound
      refine .bind_next fun mark hmark => ?_
      have hwithin := field.within
      rw [hmark] at hrest hwithin hyields
      simp only [List.length_cons] at hwithin
      split
      · rename_i hcomma
        have hnext := h.step (precedes_of_readField hyields) hcomma
        exact .map (ihm mark.rest.length (by omega) (by omega) hnext rfl) fun _ => rfl
      · exact .success (Lexeme.suffix_of_cons hrest)
      · exact .unexpected (Lexeme.mem_of_suffix hrest)

theorem reports_readRecord {l : Lexeme} (hl : l.token = .lparen) (hn : ts.length < n) (h : l :: ts <:+ ls) :
    Reports units ls (readRecord units ts) := by
  have hfields : GoesOnWith units ls [] ts := ⟨l, ts, h, hl, .inl ⟨rfl, rfl⟩⟩
  cases ts with
  | nil =>
      rw [readRecord]
      exact reports_readFields ih hn hfields
  | cons l' ts =>
      rw [readRecord]
      split
      · exact .success (Lexeme.suffix_of_cons hfields.suffix)
      · exact reports_readFields ih hn hfields

theorem reports_readArg (hn : ts.length < n) (h : ts <:+ ls) : Reports units ls (readArg units ts) := by
  rw [readArg]
  refine .eat (fun l hl hts => ?_) fun _ => .map (ih ts hn h) fun _ => rfl
  rw [hts] at h
  have hunit : StandsBehind [.lparen, .lbrace] ls _ := Lexeme.standsBehind_of_suffix h (by simp [hl])
  exact (UnitScheme.reports_read hunit).bind fun unit _ hrest => .map (.expect hrest) fun _ => rfl

theorem reports_readArgs (hn : ts.length ≤ n) (h : ts <:+ ls) : Reports units ls (readArgs units stop ts) := by
  obtain ⟨m, hm⟩ : ∃ m, ts.length = m := ⟨_, rfl⟩
  induction m using Nat.strongRecOn generalizing ts stop with
  | _ m ihm =>
      by_cases hparen : firstToken? ts = some .lparen
      · obtain ⟨l, ts, rfl, hl⟩ := Lexeme.firstToken?_eq_some_iff.1 hparen
        rw [readArgs, if_pos hl]
        simp only [List.length_cons] at hn hm
        refine (reports_readArg ih (by omega) (Lexeme.suffix_of_cons h)).bind fun arg _ harg => ?_
        refine (Reports.expect harg).bind fun close _ hclose => ?_
        have hwithin := arg.within
        have hwithin' := close.within
        exact .map (ihm close.rest.length (by omega) (by omega) hclose rfl) fun _ => rfl
      · exact .of_yields ((yields_readArgs_of_first_ne hparen).2 ⟨rfl, rfl⟩) h

end Parts

/-- The errors of the reader of types are meaningful. -/
theorem reports_read (h : ts <:+ ls) : Reports units ls (read units ts) := by
  obtain ⟨m, hm⟩ : ∃ m, ts.length = m := ⟨_, rfl⟩
  induction m using Nat.strongRecOn generalizing ts with
  | _ m ihm =>
      have ih : ∀ ts : List Lexeme, ts.length < m → ts <:+ ls → Reports units ls (read units ts) :=
        fun ts hts h => ihm _ hts h rfl
      rw [read.eq_def]
      cases ts with
      | nil => exact .failure trivial
      | cons l ts =>
          have hrest := Lexeme.suffix_of_cons h
          simp only [List.length_cons] at hm
          dsimp only
          split
          · split
            · exact .success hrest
            · exact .map (reports_readNumber hrest) fun _ => rfl
          · exact (ih ts (by omega) hrest).bind fun element _ helement => .map (.expect helement) fun _ => rfl
          · rename_i hl
            have hwithin := (Lexeme.eat .lparen l.span.stop ts).within
            refine .eat (fun l' hl' hts => ?_) fun _ => .map (reports_readRecord ih hl (by omega) h) fun _ => rfl
            rw [hts] at hrest
            exact .map (reports_readFunction ih (by omega) (Lexeme.suffix_of_cons hrest)) fun _ => rfl
          · exact .map (reports_readArgs ih (by omega) hrest) fun _ => rfl
          · exact .unexpected (Lexeme.mem_of_suffix h)

end Scheme

/-- The first piece of the text that is no token stands here. -/
def FirstUnreadable (source : String) (span : Span) : Prop :=
  ∃ (ls : List Lexeme) (rest : List Piece), scan source = ls.map .lexeme ++ .unreadable span :: rest

namespace ParseError

/-- Where the error stands. -/
def span? : ParseError → Option Span
  | unreadable span | unexpectedToken span _ _ | invalidExponent span | chainedDivision span
  | duplicateField span _ => some span
  | unexpectedEnd _ | unknownUnit _ => none

/-- The part of the text that the error shows. -/
def shown? : ParseError → Option String
  | unexpectedToken _ found _ => some found
  | duplicateField _ name => some name
  | unreadable _ | unexpectedEnd _ | invalidExponent _ | chainedDivision _ | unknownUnit _ => none

/-- The error stands at lexemes of the source text, which can be cut out of it, and shows what stands there. -/
structure StandsAt (source : String) (ls : List Lexeme) (span : Span) (e : ParseError) : Prop where
  runsOver : ∃ used, used <:+: ls ∧ RunsOver used span
  sliceable : span.Sliceable source
  shown : ∀ text, e.shown? = some text → span.slice source = text

end ParseError

section Places

variable {source : String} {ls : List Lexeme}

theorem Lexeme.ofPieces_eq_error_iff {ps : List Piece} {span : Span} :
    ofPieces ps = .error span ↔
      ∃ (ls : List Lexeme) (rest : List Piece), ps = ls.map .lexeme ++ .unreadable span :: rest := by
  induction ps with
  | nil => simp [ofPieces]
  | cons p ps ih =>
      cases p with
      | unreadable s =>
          constructor
          · rintro ⟨⟩
            exact ⟨[], ps, rfl⟩
          · rintro ⟨ls, rest, h⟩
            cases ls with
            | nil =>
                cases h
                rfl
            | cons l ls => cases h
      | lexeme l =>
          rw [ofPieces, map_eq_error_iff, ih]
          constructor
          · rintro ⟨ls, rest, rfl⟩
            exact ⟨l :: ls, rest, rfl⟩
          · rintro ⟨ls, rest, h⟩
            cases ls with
            | nil => cases h
            | cons l' ls =>
                cases h
                exact ⟨ls, rest, rfl⟩

theorem Lexeme.exists_runsOver_of_mem {l : Lexeme} (hl : l ∈ ls) : ∃ used, used <:+: ls ∧ RunsOver used l.span := by
  obtain ⟨before, after, rfl⟩ := List.append_of_mem hl
  exact ⟨[l], ⟨before, after, by simp⟩, ⟨l, rfl, rfl⟩, ⟨l, rfl, rfl⟩⟩

/-- Lexemes stand one after the other, so the first one starts before the last one ends. -/
theorem Lexeme.RunsOver.sliceable {used : List Lexeme} {span : Span} (h : RunsOver used span) (hused : used <:+: ls)
    (hls : scan source = ls.map .lexeme) : span.Sliceable source := by
  have hmem : ∀ l ∈ used, Piece.lexeme l ∈ scan source := fun l hl => hls ▸ List.mem_map_of_mem (hused.subset hl)
  have hascending : used.Pairwise fun l l' => l.span.stop ≤ l'.span.start := by
    have hall := (ascending_scanFrom 0 source.toList).2
    rw [← scan, hls] at hall
    exact (List.pairwise_map.1 hall).sublist hused.sublist
  obtain ⟨⟨first, hfirst, hstart⟩, ⟨last, hlast, hstop⟩⟩ := h
  have hfirst' : first.span.Sliceable source := sliceable_of_mem_scan (hmem first (List.mem_of_head? hfirst))
  have hlast' : last.span.Sliceable source := sliceable_of_mem_scan (hmem last (List.mem_of_getLast? hlast))
  have hnonempty : first.span.start < last.span.stop := by
    obtain ⟨rest, rfl⟩ := List.head?_eq_some_iff.1 hfirst
    rcases List.mem_cons.1 (List.mem_of_getLast? hlast) with rfl | hbehind
    · exact hfirst'.nonempty
    · have hbefore := List.rel_of_pairwise_cons hascending hbehind
      exact Nat.lt_of_lt_of_le hfirst'.nonempty (Nat.le_trans hbefore (Nat.le_of_lt hlast'.nonempty))
  obtain ⟨start, stop⟩ := span
  cases hstart
  cases hstop
  exact ⟨hnonempty, hfirst'.start, hlast'.stop⟩

theorem Token.IsLexeme.eq_of_asName? {t : Token} {text : String} {n : Name} (h : t.IsLexeme text)
    (hn : t.asName? = some n) : text = n := by
  cases t with
  | name m =>
      cases hn
      exact h.1
  | keyword k =>
      cases hn
      exact (Option.some.inj h).symm
  | _ => cases hn

/-- A token that can stand for a name has the name as its text. -/
theorem slice_of_asName? {l : Lexeme} {n : Name} (hl : .lexeme l ∈ scan source) (hn : l.token.asName? = some n) :
    l.span.slice source = n := by
  have hcuts := cutsOff_of_mem_scan hl
  rw [Piece.token?, Piece.span] at hcuts
  cases hcuts with
  | token h longest =>
      rw [String.ofList_toList] at h
      exact h.eq_of_asName? hn

theorem Overflows.exists_runsOver {units : UnitCatalog} {openers : List Token} {left right : UnitScheme → Phrase}
    {sign : Token} {combine? : UnitScheme → UnitScheme → Option UnitScheme} {span : Span}
    (h : Overflows units openers left right sign combine? ls span) : ∃ used, used <:+: ls ∧ RunsOver used span := by
  obtain ⟨ts, l, ts', last, after, u, v, ⟨before, rfl, -⟩, -, -, -, -, -, hruns⟩ := h
  exact ⟨_, ⟨before, after, by simp⟩, hruns⟩

theorem RepeatedField.exists_mem {units : UnitCatalog} {span : Span} {name : Name}
    (h : RepeatedField units ls span name) : ∃ l ∈ ls, l.token.asName? = some name ∧ l.span = span := by
  obtain ⟨o, earlier, comma, l, field, after, fs, f, hls, -, -, -, -, hname, hspan, -⟩ := h
  exact ⟨l, hls.subset (by simp), hname, hspan⟩

namespace ParseError

theorem Meaningful.exists_runsOver {units : UnitCatalog} {e : ParseError} {span : Span} (h : e.Meaningful units ls)
    (hspan : e.span? = some span) : ∃ used, used <:+: ls ∧ RunsOver used span := by
  cases e with
  | unreadable s => exact h.elim
  | unexpectedToken s found expected =>
      cases hspan
      obtain ⟨l, hl, rfl, -⟩ := h
      exact Lexeme.exists_runsOver_of_mem hl
  | invalidExponent s =>
      cases hspan
      rcases h with ⟨l, after, p, hls, -, -, rfl⟩ | h | h
      · exact Lexeme.exists_runsOver_of_mem (Lexeme.mem_of_suffix hls.suffix)
      · exact h.exists_runsOver
      · exact h.exists_runsOver
  | chainedDivision s =>
      cases hspan
      obtain ⟨l, hl, -, rfl⟩ := h
      exact Lexeme.exists_runsOver_of_mem hl
  | duplicateField s name =>
      cases hspan
      obtain ⟨l, hl, -, rfl⟩ := RepeatedField.exists_mem h
      exact Lexeme.exists_runsOver_of_mem hl
  | unexpectedEnd expected => cases hspan
  | unknownUnit e => cases hspan

theorem Meaningful.slice {units : UnitCatalog} {e : ParseError} {span : Span} {text : String}
    (h : e.Meaningful units ls) (hls : scan source = ls.map .lexeme) (hspan : e.span? = some span)
    (htext : e.shown? = some text) : span.slice source = text := by
  have hmem : ∀ l ∈ ls, Piece.lexeme l ∈ scan source := fun l hl => hls ▸ List.mem_map_of_mem hl
  cases e with
  | unexpectedToken s found expected =>
      cases hspan
      cases htext
      obtain ⟨l, hl, rfl, rfl⟩ := h
      exact (text_of_mem_scan (hmem l hl)).symm
  | duplicateField s name =>
      cases hspan
      cases htext
      obtain ⟨l, hl, hname, rfl⟩ := RepeatedField.exists_mem h
      exact slice_of_asName? (hmem l hl) hname
  | unreadable | unexpectedEnd | invalidExponent | chainedDivision | unknownUnit => cases htext

theorem Meaningful.standsAt {units : UnitCatalog} {e : ParseError} {span : Span} (h : e.Meaningful units ls)
    (hls : scan source = ls.map .lexeme) (hspan : e.span? = some span) : e.StandsAt source ls span := by
  obtain ⟨used, hused, hruns⟩ := h.exists_runsOver hspan
  exact ⟨⟨used, hused, hruns⟩, hruns.sliceable hused hls, fun text => h.slice hls hspan⟩

end ParseError

end Places

section Parse

variable {α : Type} {units : UnitCatalog} {source : String}

theorem parseAll_of_firstUnreadable (reader : (ts : List Lexeme) → Except ParseError (Parsed α ts.length))
    {span : Span} (h : FirstUnreadable source span) :
    parseAll reader source = .error (.unreadable span) := by
  have hread : Lexeme.readAll source = .error span := Lexeme.ofPieces_eq_error_iff.2 h
  rw [parseAll, hread]

/-- A reader whose errors are meaningful reports no error of another kind when it reads a whole text. -/
theorem parseAll_meaningful {reader : (ts : List Lexeme) → Except ParseError (Parsed α ts.length)} {e : ParseError}
    (hreader : ∀ ls, Reports units ls (reader ls))
    (h : parseAll reader source = .error e) :
    (∃ span, e = .unreadable span ∧ FirstUnreadable source span) ∨
      ∃ ls, scan source = ls.map .lexeme ∧ e.Meaningful units ls := by
  cases hread : Lexeme.readAll source with
  | error span =>
      simp only [parseAll, hread] at h
      cases h
      exact .inl ⟨span, rfl, Lexeme.ofPieces_eq_error_iff.1 hread⟩
  | ok ls =>
      refine .inr ⟨ls, Lexeme.eq_map_of_ofPieces hread, ?_⟩
      simp only [parseAll, hread] at h
      rcases bind_eq_error_iff.1 h with h | ⟨r, hr, h⟩
      · exact (hreader ls).error e h
      · have hrest := (hreader ls).ok r hr
        split at h
        · cases h
        · rename_i l after hl
          cases h
          rw [hl] at hrest
          exact ⟨l, Lexeme.mem_of_suffix hrest, rfl, rfl⟩

/-- The parsers report the first part of a text that is no token, whatever else is wrong with the text.  All their other
errors are meaningful, and if such an error has a place, it stands there. -/
theorem parse_error_meaningful (units : UnitCatalog) (source : String) :
    (∀ span, FirstUnreadable source span →
      Scheme.parse units source = .error (.unreadable span) ∧
      UnitScheme.parse units source = .error (.unreadable span)) ∧
    ∀ e, Scheme.parse units source = .error e ∨ UnitScheme.parse units source = .error e →
      (∃ span, e = .unreadable span ∧ FirstUnreadable source span) ∨
      ∃ ls, scan source = ls.map .lexeme ∧ e.Meaningful units ls ∧
        ∀ span, e.span? = some span → e.StandsAt source ls span := by
  refine ⟨fun span h => ⟨parseAll_of_firstUnreadable (Scheme.read units) h,
    parseAll_of_firstUnreadable (UnitScheme.read units) h⟩, fun e h => ?_⟩
  have hmeaningful : (∃ span, e = .unreadable span ∧ FirstUnreadable source span) ∨
      ∃ ls, scan source = ls.map .lexeme ∧ e.Meaningful units ls := by
    rcases h with h | h
    · exact parseAll_meaningful (fun ls => Scheme.reports_read List.suffix_rfl) h
    · exact parseAll_meaningful (fun ls => UnitScheme.reports_read Lexeme.standsBehind_all) h
  rcases hmeaningful with hunreadable | ⟨ls, hls, h⟩
  · exact .inl hunreadable
  · exact .inr ⟨ls, hls, h, fun span => h.standsAt hls⟩

/-- In `) é` the second character is reported although the text is wrong before it; in `s/(m^2147483647*m)` the product
inside the brackets is too large; in `(a:Text,a?:Text)` a name is repeated. -/
theorem parse_error_meaningful_of_wrong_texts :
    UnitScheme.parse .builtin ") é" = .error (.unreadable ⟨2, 4⟩) ∧
    (UnitScheme.parse .builtin "s/(m^2147483647*m)" = .error (.invalidExponent ⟨3, 17⟩) ∧
      Span.Sliceable "s/(m^2147483647*m)" ⟨3, 17⟩) ∧
    Scheme.parse .builtin "(a:Text,a?:Text)" = .error (.duplicateField ⟨8, 9⟩ "a") ∧
      Span.slice "(a:Text,a?:Text)" ⟨8, 9⟩ = "a" := by
  have hunreadable : FirstUnreadable ") é" ⟨2, 4⟩ := ⟨[⟨.rparen, ")", ⟨0, 1⟩⟩], [], by decide +kernel⟩
  have hproduct : UnitScheme.parse .builtin "s/(m^2147483647*m)" = .error (.invalidExponent ⟨3, 17⟩) := by
    have hls : Lexeme.readAll "s/(m^2147483647*m)" = .ok [⟨.name "s", "s", ⟨0, 1⟩⟩, ⟨.div, "/", ⟨1, 2⟩⟩,
        ⟨.lparen, "(", ⟨2, 3⟩⟩, ⟨.name "m", "m", ⟨3, 4⟩⟩, ⟨.pow, "^", ⟨4, 5⟩⟩,
        ⟨.int (.clamp 2147483647), "2147483647", ⟨5, 15⟩⟩, ⟨.times, "*", ⟨15, 16⟩⟩, ⟨.name "m", "m", ⟨16, 17⟩⟩,
        ⟨.rparen, ")", ⟨17, 18⟩⟩] :=
      toOption_eq_some_iff.1 (by decide +kernel)
    have hm : UnitCatalog.builtin.get "m" = .ok ⟨"m", "metre"⟩ := rfl
    have hs : UnitCatalog.builtin.get "s" = .ok ⟨"s", "second"⟩ := rfl
    let power : UnitScheme := .ofFactors [(.unit ⟨"m", "metre"⟩, .clamp 2147483647)]
    have hpower : (Product.single (.unit ⟨"m", "metre"⟩ : Atom Name)).raise? (.clamp 2147483647) = some power := rfl
    have htimes : power.times? (.single (.unit ⟨"m", "metre"⟩)) = none := rfl
    simp only [UnitScheme.parse, parseAll, hls]
    simp [UnitScheme.read, UnitScheme.readQuotient, UnitScheme.readSingle, UnitScheme.readPower,
      UnitScheme.readFactors, hm, hs, hpower, htimes, Lexeme.next, Lexeme.startOf, Token.asName?, Parsed.widen, bind,
      Except.bind, pure, Except.pure, throw, throwThe, MonadExceptOf.throw]
  have hrepeated : Scheme.parse .builtin "(a:Text,a?:Text)" = .error (.duplicateField ⟨8, 9⟩ "a") := by
    have hls : Lexeme.readAll "(a:Text,a?:Text)" = .ok [⟨.lparen, "(", ⟨0, 1⟩⟩, ⟨.name "a", "a", ⟨1, 2⟩⟩,
        ⟨.colon, ":", ⟨2, 3⟩⟩, ⟨.keyword .text, "Text", ⟨3, 7⟩⟩, ⟨.comma, ",", ⟨7, 8⟩⟩, ⟨.name "a", "a", ⟨8, 9⟩⟩,
        ⟨.question, "?", ⟨9, 10⟩⟩, ⟨.colon, ":", ⟨10, 11⟩⟩, ⟨.keyword .text, "Text", ⟨11, 15⟩⟩,
        ⟨.rparen, ")", ⟨15, 16⟩⟩] :=
      toOption_eq_some_iff.1 (by decide +kernel)
    simp only [Scheme.parse, parseAll, hls]
    simp [Scheme.read, Scheme.readRecord, Scheme.readFields, Scheme.readField, Scheme.primitive?, Lexeme.eat,
      Lexeme.nextName, Lexeme.expect, Lexeme.next, Token.asName?, Field.find?, Field.insert, Ascending.find?,
      Ascending.insert, Parsed.map, Parsed.widen, bind, Except.bind, pure, Except.pure, throw, throwThe,
      MonadExceptOf.throw]
  refine ⟨((parse_error_meaningful .builtin ") é").1 _ hunreadable).2, ⟨hproduct, ?_⟩, hrepeated, ?_⟩
  · rcases (parse_error_meaningful .builtin "s/(m^2147483647*m)").2 _ (.inr hproduct) with ⟨_, h, -⟩ | ⟨ls, -, -, h⟩
    · cases h
    · exact (h _ rfl).sliceable
  · rcases (parse_error_meaningful .builtin "(a:Text,a?:Text)").2 _ (.inl hrepeated) with ⟨_, h, -⟩ | ⟨ls, -, -, h⟩
    · cases h
    · exact (h _ rfl).shown _ rfl

end Parse

end Tabula
