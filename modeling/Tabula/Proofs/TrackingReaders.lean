import Tabula.Proofs.ViablePrefixes

/-!
# The readers keep track of the grammar

Every reader of `UnitScheme` and `Scheme` tracks the language of its phrase, in front of any language that can follow
the phrase.  Nothing may follow a phrase by which it would go on: no power behind a single unit, no slash behind a
quotient, no opening parenthesis or brace behind a type.  The languages that occur behind a phrase in the grammar are
all of this kind.
-/

namespace Tabula

open Ebnf (just integer moreFactors paramsThen moreParams fieldsThen someFields moreFields argsThen argThen)
open Lexeme (firstToken?)

namespace UnitScheme

variable {units : UnitCatalog} {K : Language Token} {u : UnitScheme} {start stop n : Nat} {ts : List Lexeme}

/-- A power is read if one follows, and then what follows can be no second one. -/
theorem tracks_readPower (hK : Follows [.pow] K) :
    Tracks (K + (just .pow).language * (integer.language * K)) K ts (readPower u stop ts) := by
  by_cases hpow : firstToken? ts = some .pow
  · obtain ⟨l, ts, rfl, hl⟩ := Lexeme.firstToken?_eq_some_iff.1 hpow
    obtain ⟨w, hw⟩ := hK.nonempty
    have hmem : .int 1 :: w ∈ integer.language * K := Ebnf.cons_mem_token_mul.2 ⟨⟨1, rfl⟩, hw⟩
    rw [readPower, if_pos hl]
    refine .after (.take rfl hl (hK.avoids _ (by simp))) (.bind_next ⟨_, _, hmem⟩ fun r => ?_)
    split
    · rename_i p hp
      split
      · exact .success (.cons fun w => by simp [integer, hp])
      · exact .failure trivial
    · rename_i hint
      exact .unexpected ⟨_, hmem⟩ fun w => by simpa [integer] using fun p hp => absurd hp (hint p)
  · exact .of_yields ((yields_readPower_of_first_ne hpow).2 ⟨rfl, rfl⟩) (.skip hpow)

/-- After a factor a product goes on or ends, so neither a power nor a slash can follow. -/
theorem follows_moreFactors (hK : Follows [.pow, .div, .times] K) : Follows [.pow, .div] (moreFactors K) := by
  rw [Ebnf.moreFactors_eq]
  exact (hK.mono (by simp)).add (by simp)

section Parts

-- As in the proof that the readers accept the grammar, the parts are read from shorter lists of lexemes.  What
-- follows a part is another language each time, so the assumption is about all of them.
variable (ih : ∀ ts : List Lexeme, ts.length < n → ∀ K, Follows [.pow, .div, .times] K →
  Tracks ((Ebnf.ref .unit).language * K) K ts (read units ts))

include ih

/-- What a single unit is shows at its first token. -/
theorem tracks_readSingle (hn : ts.length ≤ n) (hK : Follows [.pow] K) :
    Tracks ((Ebnf.ref .single).language * K) K ts (readSingle units ts) := by
  obtain ⟨w, hw⟩ := hK.nonempty
  have hmem : .int 1 :: w ∈ (Ebnf.ref .single).language * K := Ebnf.cons_mem_single_mul.2 (.inl ⟨rfl, hw⟩)
  rw [readSingle.eq_def]
  cases ts with
  | nil => exact .unexpectedEnd ⟨_, _, hmem⟩
  | cons l ts =>
      dsimp only
      split
      · rename_i p hl
        split
        · rename_i hp
          exact .success (.cons fun w => by simp [Ebnf.cons_mem_single_mul, hl, hp, Token.asName?])
        · exact .failure trivial
      · rename_i hl
        have hclose : Follows [.pow, .div, .times] ((just .rparen).language * K) := .just hK.nonempty (by simp)
        refine .after (.cons fun w => ?_)
          ((ih ts hn _ hclose).bind fun inner _ => .map (.expect hK.nonempty) fun _ => rfl)
        simp [Ebnf.cons_mem_single_mul, hl, Token.asName?]
      · rename_i hl
        refine .after (.cons fun w => ?_) ((Tracks.nextName (hK.nonempty.imp fun _ => .inl)).bind fun name _ =>
          .map (tracks_readPower hK) fun _ => rfl)
        simp [Ebnf.cons_mem_single_mul, hl, Token.asName?]
      · rename_i hint hparen hvar
        split
        · rename_i hname
          refine .unexpected ⟨_, hmem⟩ fun w => ?_
          rw [Ebnf.cons_mem_single_mul]
          grind
        · rename_i name hname
          split
          · exact .failure trivial
          · refine .after (.cons fun w => ?_) (.map (tracks_readPower hK) fun _ => rfl)
            rw [Ebnf.cons_mem_single_mul]
            grind

theorem tracks_readQuotient (hn : ts.length ≤ n) (hK : Follows [.pow, .div] K) :
    Tracks ((Ebnf.ref .quotient).language * K) K ts (readQuotient units ts) := by
  rw [readQuotient, Ebnf.language_quotient_mul]
  have hpow : Follows [.pow] K := hK.mono (by simp)
  refine (tracks_readSingle ih hn (hpow.add (by simp))).bind fun numerator _ => ?_
  have hwithin := numerator.within
  split
  · rename_i hrest
    exact .success (.skip (by simp [hrest]))
  · rename_i l rest hrest
    split
    · rename_i hl
      refine .after (.take hrest hl (hK.avoids _ (by simp))) ?_
      rw [hrest] at hwithin
      simp only [List.length_cons] at hwithin
      refine (tracks_readSingle ih (by omega) hpow).bind fun denominator _ => ?_
      split
      · rename_i text span hdiv
        obtain ⟨after, hafter⟩ := List.head?_eq_some_iff.1 hdiv
        rw [hafter]
        -- A quotient has been read, and no quotient is followed by a slash.
        exact .failure ⟨_, .head hK.nonempty (hK.avoids .div (by simp)), rfl⟩
      · split
        · exact .failure trivial
        · exact .success .refl
    · rename_i hl
      exact .success (.skip (by simpa [hrest] using hl))

/-- The loop over further factors. -/
theorem tracks_readFactors (hn : ts.length ≤ n) (hK : Follows [.pow, .div, .times] K) :
    Tracks (moreFactors K) K ts (readFactors units start u stop ts) := by
  obtain ⟨m, hm⟩ : ∃ m, ts.length = m := ⟨_, rfl⟩
  induction m using Nat.strongRecOn generalizing ts u stop with
  | _ m ihm =>
      rw [Ebnf.moreFactors_eq]
      by_cases htimes : firstToken? ts = some .times
      · obtain ⟨l, ts, rfl, hl⟩ := Lexeme.firstToken?_eq_some_iff.1 htimes
        rw [readFactors, if_pos hl]
        refine .after (.take rfl hl (hK.avoids _ (by simp))) ?_
        simp only [List.length_cons] at hn hm
        refine (tracks_readQuotient ih (by omega) (follows_moreFactors hK)).bind fun factor _ => ?_
        have hwithin := factor.within
        split
        · exact .failure trivial
        · exact .map (ihm _ (by omega) (by omega) rfl) fun _ => rfl
      · exact .of_yields ((yields_readFactors_of_first_ne htimes).2 ⟨rfl, rfl⟩) (.skip htimes)

end Parts

/-- The reader of units keeps track of the grammar. -/
theorem tracks_read (hK : Follows [.pow, .div, .times] K) :
    Tracks ((Ebnf.ref .unit).language * K) K ts (read units ts) := by
  obtain ⟨m, hm⟩ : ∃ m, ts.length = m := ⟨_, rfl⟩
  induction m using Nat.strongRecOn generalizing ts K with
  | _ m ihm =>
      have ih : ∀ ts : List Lexeme, ts.length < m → ∀ K, Follows [.pow, .div, .times] K →
          Tracks ((Ebnf.ref .unit).language * K) K ts (read units ts) := fun ts hts K hK => ihm _ hts hK rfl
      rw [read, Ebnf.language_unit_mul]
      refine (tracks_readQuotient ih (Nat.le_of_eq hm) (follows_moreFactors hK)).bind fun first _ => ?_
      have hwithin := first.within
      exact .map (tracks_readFactors ih (by omega) hK) fun _ => rfl

end UnitScheme

namespace Scheme

variable {units : UnitCatalog} {K : Language Token} {stop n : Nat} {ts : List Lexeme}

theorem tracks_readNumber (hK : Follows [.lparen, .lbrace] K) :
    Tracks (K + (just .lbrace).language * ((Ebnf.ref .unit).language * ((just .rbrace).language * K))) K ts
      (readNumber units stop ts) := by
  have hclose : Follows [.pow, .div, .times] ((just .rbrace).language * K) := .just hK.nonempty (by simp)
  refine .eat (hK.avoids _ (by simp)) ?_ fun hts => ?_
  · exact (UnitScheme.tracks_read hclose).bind fun unit _ => .map (.expect hK.nonempty) fun _ => rfl
  · obtain ⟨-, hrest⟩ := Lexeme.eat_of_not_first stop hts
    exact .success (by rw [Parsed.rest_map, hrest]; exact .refl)

theorem exists_mem_type_mul (hK : ∃ w, w ∈ K) : ∃ w, w ∈ (Ebnf.ref .type).language * K := by
  obtain ⟨w, hw⟩ := hK
  exact ⟨.keyword .text :: w, Ebnf.cons_mem_type_mul.2 (.inl ⟨⟨.text, rfl, by simp⟩, hw⟩)⟩

/-- After a parameter there is a comma or the closing parenthesis. -/
theorem follows_moreParams (hK : ∃ w, w ∈ K) : Follows [.lparen, .lbrace] (moreParams K) := by
  rw [Ebnf.moreParams_eq]
  exact (Follows.just hK (by simp)).add (by simp)

theorem follows_moreFields (hK : ∃ w, w ∈ K) : Follows [.lparen, .lbrace] (moreFields K) := by
  rw [Ebnf.moreFields_eq]
  exact (Follows.just hK (by simp)).add (by simp)

section Parts

variable (ih : ∀ ts : List Lexeme, ts.length < n → ∀ K, Follows [.lparen, .lbrace] K →
  Tracks ((Ebnf.ref .type).language * K) K ts (read units ts))

include ih

/-- The loop over the parameters. -/
theorem tracks_readParams (hn : ts.length < n) (hK : ∃ w, w ∈ K) :
    Tracks ((Ebnf.ref .type).language * moreParams K) K ts (readParams units ts) := by
  obtain ⟨w, hw⟩ := hK
  have hmem : .rparen :: w ∈ moreParams K := Ebnf.cons_mem_moreParams.2 (.inl ⟨rfl, hw⟩)
  obtain ⟨m, hm⟩ : ∃ m, ts.length = m := ⟨_, rfl⟩
  induction m using Nat.strongRecOn generalizing ts with
  | _ m ihm =>
      rw [readParams]
      refine (ih ts hn _ (follows_moreParams ⟨w, hw⟩)).bind fun first _ => ?_
      refine .bind_next ⟨_, _, hmem⟩ fun mark => ?_
      have hfirst := first.within
      have hmark := mark.within
      split
      · rename_i hcomma
        refine .after (.cons fun w => ?_) (.map (ihm mark.rest.length (by omega) (by omega) rfl) fun _ => rfl)
        simp [Ebnf.cons_mem_moreParams, hcomma]
      · rename_i hclose
        exact .success (.cons fun w => by simp [Ebnf.cons_mem_moreParams, hclose])
      · rename_i hcomma hclose
        refine .unexpected ⟨_, hmem⟩ fun w => ?_
        rw [Ebnf.cons_mem_moreParams]
        grind

theorem tracks_readParamList (hn : ts.length < n) (hK : ∃ w, w ∈ K) :
    Tracks (paramsThen K) K ts (readParamList units ts) := by
  rw [Ebnf.paramsThen_eq]
  by_cases hclose : firstToken? ts = some .rparen
  · obtain ⟨l, ts, rfl, hl⟩ := Lexeme.firstToken?_eq_some_iff.1 hclose
    refine .of_yields ((yields_readParamList_rparen hl).2 ⟨rfl, rfl⟩) (.take rfl hl fun w => ?_)
    simp [Ebnf.cons_mem_type_mul]
  · refine .after (.skip hclose) ?_
    cases ts with
    | nil =>
        rw [readParamList]
        exact tracks_readParams ih hn hK
    | cons l ts =>
        have hl : l.token ≠ .rparen := by simpa using hclose
        rw [readParamList, if_neg hl]
        exact tracks_readParams ih hn hK

theorem tracks_readFunction (hn : ts.length < n) (hK : ∃ w, w ∈ K) :
    Tracks (paramsThen ((just .arrow).language * ((Ebnf.ref .type).language * ((just .rparen).language * K)))) K ts
      (readFunction units ts) := by
  have hclose : Follows [.lparen, .lbrace] ((just .rparen).language * K) := .just hK (by simp)
  have hresult := exists_mem_type_mul hclose.nonempty
  have harrow : Follows [] ((just .arrow).language * _) := .just hresult (by simp)
  rw [readFunction]
  refine (tracks_readParamList ih hn harrow.nonempty).bind fun params _ => ?_
  refine (Tracks.expect hresult).bind fun arrow _ => ?_
  have hparams := params.within
  have harrow := arrow.within
  exact (ih arrow.rest (by omega) _ hclose).bind fun result _ => .map (.expect hK) fun _ => rfl

theorem tracks_readField (hn : ts.length < n) (hK : Follows [.lparen, .lbrace] K) :
    Tracks ((Ebnf.ref .field).language * K) K ts (readField units ts) := by
  have htype := exists_mem_type_mul hK.nonempty
  have hcolon : Follows [.question] ((just .colon).language * ((Ebnf.ref .type).language * K)) :=
    .just htype (by simp)
  rw [Ebnf.language_field_mul, readField]
  refine (Tracks.nextName (hcolon.nonempty.imp fun _ => .inl)).bind fun name _ => ?_
  refine .after (.eat (hcolon.avoids _ (by simp))) ((Tracks.expect htype).bind fun colon _ => ?_)
  have hname := name.within
  have hquestion := (Lexeme.eat .question name.stop name.rest).within
  have hcolon := colon.within
  exact .map (ih colon.rest (by omega) _ hK) fun _ => rfl

/-- The loop over the fields.  Whether a field is repeated makes no difference to the language. -/
theorem tracks_readFields {fields : List (Field Scheme)} (hn : ts.length < n) (hK : ∃ w, w ∈ K) :
    Tracks (someFields K) K ts (readFields units fields ts) := by
  obtain ⟨w, hw⟩ := hK
  have hmem : .rparen :: w ∈ moreFields K := Ebnf.cons_mem_moreFields.2 (.inl ⟨rfl, hw⟩)
  obtain ⟨m, hm⟩ : ∃ m, ts.length = m := ⟨_, rfl⟩
  induction m using Nat.strongRecOn generalizing ts fields with
  | _ m ihm =>
      rw [someFields, readFields]
      refine .eat (fun w => by simp [Ebnf.cons_mem_field_mul, Token.asName?]) ?_ fun _ => ?_
      · exact .map (.expect ⟨w, hw⟩) fun _ => rfl
      refine (tracks_readField ih hn (follows_moreFields ⟨w, hw⟩)).bind fun field _ => ?_
      split
      · exact .failure trivial
      refine .bind_next ⟨_, _, hmem⟩ fun mark => ?_
      have hfield := field.within
      have hmark := mark.within
      split
      · rename_i hcomma
        refine .after (.cons fun w => ?_) (.map (ihm mark.rest.length (by omega) (by omega) rfl) fun _ => rfl)
        simp [Ebnf.cons_mem_moreFields, hcomma]
      · rename_i hclose
        exact .success (.cons fun w => by simp [Ebnf.cons_mem_moreFields, hclose])
      · rename_i hcomma hclose
        refine .unexpected ⟨_, hmem⟩ fun w => ?_
        rw [Ebnf.cons_mem_moreFields]
        grind

/-- A record is empty or has something that starts a field. -/
theorem tracks_readRecord (hn : ts.length < n) (hK : ∃ w, w ∈ K) :
    Tracks (fieldsThen K) K ts (readRecord units ts) := by
  rw [Ebnf.fieldsThen_eq]
  by_cases hclose : firstToken? ts = some .rparen
  · obtain ⟨l, ts, rfl, hl⟩ := Lexeme.firstToken?_eq_some_iff.1 hclose
    refine .of_yields ((yields_readRecord_rparen hl).2 ⟨rfl, rfl⟩) (.take rfl hl fun w => ?_)
    simp [someFields, Language.mem_add, Ebnf.cons_mem_field_mul, Token.asName?]
  · refine .after (.skip hclose) ?_
    cases ts with
    | nil =>
        rw [readRecord]
        exact tracks_readFields ih hn hK
    | cons l ts =>
        have hl : l.token ≠ .rparen := by simpa using hclose
        rw [readRecord, if_neg hl]
        exact tracks_readFields ih hn hK

theorem tracks_readArg (hn : ts.length < n) (hK : Follows [.lparen, .lbrace] K) :
    Tracks (argThen K) K ts (readArg units ts) := by
  have hclose : Follows [.pow, .div, .times] ((just .rbrace).language * K) := .just hK.nonempty (by simp)
  rw [argThen, readArg]
  refine .eat (fun w => by simp [Ebnf.cons_mem_type_mul]) ?_ fun _ => ?_
  · exact (UnitScheme.tracks_read hclose).bind fun unit _ => .map (.expect hK.nonempty) fun _ => rfl
  · exact .map (ih ts hn _ hK) fun _ => rfl

/-- The loop over the arguments, which ends where no parenthesis follows. -/
theorem tracks_readArgs (hn : ts.length ≤ n) (hK : Follows [.lparen, .lbrace] K) :
    Tracks (argsThen K) K ts (readArgs units stop ts) := by
  obtain ⟨m, hm⟩ : ∃ m, ts.length = m := ⟨_, rfl⟩
  induction m using Nat.strongRecOn generalizing ts stop with
  | _ m ihm =>
      by_cases hparen : firstToken? ts = some .lparen
      · obtain ⟨l, ts, rfl, hl⟩ := Lexeme.firstToken?_eq_some_iff.1 hparen
        simp only [List.length_cons] at hn hm
        have hothers : ∃ w, w ∈ argsThen K := by
          rw [Ebnf.argsThen_eq]
          exact hK.nonempty.imp fun _ => .inl
        rw [Ebnf.argsThen_eq, readArgs, if_pos hl]
        refine .after (.take rfl hl (hK.avoids _ (by simp))) ?_
        refine (tracks_readArg ih (by omega) (.just hothers (by simp))).bind fun arg _ => ?_
        refine (Tracks.expect hothers).bind fun close _ => ?_
        have harg := arg.within
        have hclose := close.within
        exact .map (ihm close.rest.length (by omega) (by omega) rfl) fun _ => rfl
      · rw [Ebnf.argsThen_eq]
        exact .of_yields ((yields_readArgs_of_first_ne hparen).2 ⟨rfl, rfl⟩) (.skip hparen)

end Parts

/-- The reader of types keeps track of the grammar. -/
theorem tracks_read (hK : Follows [.lparen, .lbrace] K) :
    Tracks ((Ebnf.ref .type).language * K) K ts (read units ts) := by
  obtain ⟨m, hm⟩ : ∃ m, ts.length = m := ⟨_, rfl⟩
  induction m using Nat.strongRecOn generalizing ts K with
  | _ m ihm =>
      have ih : ∀ ts : List Lexeme, ts.length < m → ∀ K, Follows [.lparen, .lbrace] K →
          Tracks ((Ebnf.ref .type).language * K) K ts (read units ts) := fun ts hts K hK => ihm _ hts hK rfl
      obtain ⟨w, hw⟩ := hK.nonempty
      have hmem : .keyword .text :: w ∈ (Ebnf.ref .type).language * K :=
        Ebnf.cons_mem_type_mul.2 (.inl ⟨⟨.text, rfl, by simp⟩, hw⟩)
      rw [read.eq_def]
      cases ts with
      | nil => exact .unexpectedEnd ⟨_, _, hmem⟩
      | cons l ts =>
          simp only [List.length_cons] at hm
          dsimp only
          split
          · rename_i k hl
            split
            · rename_i p hp
              have hk : k ≠ .number := by
                rintro rfl
                cases hp
              exact .success (.cons fun w => by simp [Ebnf.cons_mem_type_mul, hl, hk])
            · rename_i hp
              obtain rfl : k = .number := by
                cases k <;> first | rfl | cases hp
              refine .after (.cons fun w => ?_) (.map (tracks_readNumber hK) fun _ => rfl)
              simp [Ebnf.cons_mem_type_mul, hl]
          · rename_i hl
            have hclose : Follows [.lparen, .lbrace] ((just .rbracket).language * K) := .just hK.nonempty (by simp)
            refine .after (.cons fun w => ?_)
              ((ih ts (by omega) _ hclose).bind fun element _ => .map (.expect hK.nonempty) fun _ => rfl)
            simp [Ebnf.cons_mem_type_mul, hl]
          · rename_i hl
            -- No field starts with a parenthesis, so a second one makes it a function type.
            have hnot : ∀ w, .lparen :: w ∉ fieldsThen K := fun w => by
              simp [Ebnf.fieldsThen_eq, someFields, Language.mem_add, Ebnf.cons_mem_field_mul, Token.asName?]
            have hinside := (Lexeme.eat .lparen l.span.stop ts).within
            refine .after (.cons fun w => ?_)
              (.eat hnot (.map (tracks_readFunction ih (by omega) hK.nonempty) fun _ => rfl) fun _ =>
                .map (tracks_readRecord ih (by omega) hK.nonempty) fun _ => rfl)
            simp [Ebnf.cons_mem_type_mul, hl, Language.mem_add, or_comm]
          · rename_i n hl
            refine .after (.cons fun w => ?_) (.map (tracks_readArgs ih (by omega) hK) fun _ => rfl)
            simp [Ebnf.cons_mem_type_mul, hl]
          · rename_i hkeyword hbracket hparen hname
            refine .unexpected ⟨_, hmem⟩ fun w => ?_
            rw [Ebnf.cons_mem_type_mul]
            grind

end Scheme

end Tabula
