import Tabula.Proofs.Readers
import Tabula.Proofs.TokenGrammar

/-!
# Readers that stop at the first impossible token

A reader works on the lexemes that are left, and at every moment the lexemes behind it allow a certain language of
continuations.  `Advances M K ts rest` says that reading from `ts` up to `rest` turns the continuations `M` into `K`.
A reader does not always know `K` exactly: when it has read a unit name and no power follows, it goes on as if none
could follow.  So `K` may be less than what is possible, as long as it has the same sentences with the next token.

`Tracks M K ts x` says that the reader `x` behaves well: if it succeeds, it advances from `M` to `K`, and if it
fails, its error is about the first token that is impossible in `M`.  The rules at the end are the steps that readers
are made of.
-/

namespace Tabula

open Ebnf (just)

/-- The tokens begin a sentence of the language. -/
def Viable (L : Language Token) (ts : List Token) : Prop :=
  ∃ w, ts ++ w ∈ L

/-- The lexeme is the first one with which the lexemes `ts` do not begin a sentence. -/
def FirstImpossible (L : Language Token) (ts : List Lexeme) (l : Lexeme) : Prop :=
  ∃ used rest, ts = used ++ l :: rest ∧ Viable L (used.map Lexeme.token) ∧
    ¬ Viable L ((used ++ [l]).map Lexeme.token)

theorem FirstImpossible.head {L : Language Token} {l : Lexeme} {rest : List Lexeme} (hL : ∃ w, w ∈ L)
    (hl : ∀ w, l.token :: w ∉ L) : FirstImpossible L (l :: rest) l := by
  refine ⟨[], rest, rfl, hL, ?_⟩
  rintro ⟨w, hw⟩
  exact hl w hw

/-- What an error says about the lexemes `ts`, if it is an error of syntax. -/
def ParseError.Locates (L : Language Token) (ts : List Lexeme) : ParseError → Prop
  | unexpectedToken span _ _ | chainedDivision span => ∃ l, FirstImpossible L ts l ∧ l.span = span
  | unexpectedEnd _ => ∃ w, w ≠ [] ∧ ts.map Lexeme.token ++ w ∈ L
  | unreadable _ | invalidExponent _ | duplicateField _ _ | unknownUnit _ => True

/-- Behind the lexemes that lead from `ts` to `rest`, the language `M` goes on with sentences of `K`, and with all of
them that start with the next lexeme. -/
def Advances (M K : Language Token) (ts rest : List Lexeme) : Prop :=
  ∃ used, ts = used ++ rest ∧ (∀ w ∈ K, used.map Lexeme.token ++ w ∈ M) ∧
    ∀ l after, rest = l :: after → ∀ w, used.map Lexeme.token ++ l.token :: w ∈ M → l.token :: w ∈ K

namespace Advances

variable {M K N : Language Token} {ts mid rest : List Lexeme} {l : Lexeme} {t : Token}

/-- Nothing is read, and the next lexeme rules out some continuations. -/
theorem narrow (hsub : ∀ w ∈ K, w ∈ M)
    (hnext : ∀ t, Lexeme.firstToken? ts = some t → ∀ w, t :: w ∈ M → t :: w ∈ K) : Advances M K ts ts := by
  refine ⟨[], rfl, hsub, ?_⟩
  rintro l after rfl w hw
  exact hnext l.token rfl w hw

theorem refl : Advances K K ts ts :=
  narrow (fun _ hw => hw) fun _ _ _ hw => hw

theorem cons (h : ∀ w, l.token :: w ∈ M ↔ w ∈ K) : Advances M K (l :: ts) ts :=
  ⟨[l], rfl, fun w hw => (h w).2 hw, fun _ _ _ _ hw => (h _).1 hw⟩

/-- The next lexeme is the one that starts the second alternative. -/
theorem take (hts : ts = l :: rest) (hl : l.token = t) (hK : ∀ w, t :: w ∉ K) :
    Advances (K + (just t).language * N) N ts rest := by
  rw [hts]
  exact .cons fun w => by simp [Language.mem_add, hl, hK]

/-- The next lexeme, if there is one, does not start the second alternative. -/
theorem skip (h : Lexeme.firstToken? ts ≠ some t) : Advances (K + (just t).language * N) K ts ts := by
  refine narrow (fun w hw => .inl hw) fun t' ht' w hw => ?_
  rcases hw with hw | hw
  · exact hw
  · obtain ⟨rfl, -⟩ := Ebnf.cons_mem_just_mul.1 hw
    exact absurd ht' h

/-- The next lexeme is read if it is this one, and makes no difference to what follows. -/
theorem eat {stop : Nat} (hK : ∀ w, t :: w ∉ K) :
    Advances (K + (just t).language * K) K ts (Lexeme.eat t stop ts).rest := by
  by_cases hts : Lexeme.firstToken? ts = some t
  · obtain ⟨l, rest, rfl, hl⟩ := Lexeme.firstToken?_eq_some_iff.1 hts
    rw [(Lexeme.eat_of_first stop rest hl).2]
    exact .take rfl hl hK
  · rw [(Lexeme.eat_of_not_first stop hts).2]
    exact .skip hts

/-- What is known of the next lexeme goes for more than one: if some of the remaining lexemes go on to a sentence of
`M`, they go on to one of `K`. -/
theorem mem_of_next {used used' after : List Lexeme} {w : List Token}
    (hnext : ∀ l after, mid = l :: after → ∀ w, used.map Lexeme.token ++ l.token :: w ∈ M → l.token :: w ∈ K)
    (hmid : mid = used' ++ l :: after)
    (hw : used.map Lexeme.token ++ (used'.map Lexeme.token ++ l.token :: w) ∈ M) :
    used'.map Lexeme.token ++ l.token :: w ∈ K := by
  cases used' with
  | nil => exact hnext l after hmid w hw
  | cons l' used' => exact hnext l' _ hmid _ hw

theorem trans (h : Advances M K ts mid) (h' : Advances K N mid rest) : Advances M N ts rest := by
  obtain ⟨used, rfl, hused, hnext⟩ := h
  obtain ⟨used', rfl, hused', hnext'⟩ := h'
  refine ⟨used ++ used', by rw [List.append_assoc], fun w hw => ?_, fun l after hrest w hw => ?_⟩
  · rw [List.map_append, List.append_assoc]
    exact hused _ (hused' w hw)
  · rw [List.map_append, List.append_assoc] at hw
    exact hnext' l after hrest w (mem_of_next hnext (by rw [hrest]) hw)

theorem firstImpossible (h : Advances M K ts mid) (hl : FirstImpossible K mid l) : FirstImpossible M ts l := by
  obtain ⟨used, rfl, hused, hnext⟩ := h
  obtain ⟨used', after, rfl, ⟨w, hw⟩, himpossible⟩ := hl
  refine ⟨used ++ used', after, by rw [List.append_assoc], ⟨w, ?_⟩, ?_⟩
  · rw [List.map_append, List.append_assoc]
    exact hused _ hw
  · rintro ⟨w, hw⟩
    refine himpossible ⟨w, ?_⟩
    simp only [List.map_append, List.map_cons, List.map_nil, List.append_assoc, List.singleton_append] at hw ⊢
    exact mem_of_next hnext rfl hw

theorem locates (h : Advances M K ts mid) {e : ParseError} (he : e.Locates K mid) : e.Locates M ts := by
  cases e with
  | unexpectedToken span | chainedDivision span =>
      obtain ⟨l, hl, hspan⟩ := he
      exact ⟨l, h.firstImpossible hl, hspan⟩
  | unexpectedEnd expected =>
      obtain ⟨w, hne, hw⟩ := he
      obtain ⟨used, rfl, hused, -⟩ := h
      refine ⟨w, hne, ?_⟩
      rw [List.map_append, List.append_assoc]
      exact hused _ hw
  | unreadable | invalidExponent | duplicateField | unknownUnit => trivial

end Advances

/-- The language is that of what follows a phrase: it is not empty, and no sentence of it starts with one of the
tokens by which the phrase would go on. -/
structure Follows (tokens : List Token) (K : Language Token) : Prop where
  nonempty : ∃ w, w ∈ K
  avoids : ∀ t ∈ tokens, ∀ w, t :: w ∉ K

namespace Follows

variable {K N : Language Token} {tokens : List Token} {t : Token}

theorem one : Follows tokens 1 :=
  ⟨⟨[], rfl⟩, fun _ _ _ h => List.cons_ne_nil _ _ ((Language.mem_one _).1 h)⟩

theorem just (hK : ∃ w, w ∈ K) (ht : t ∉ tokens) : Follows tokens ((just t).language * K) := by
  obtain ⟨w, hw⟩ := hK
  refine ⟨⟨t :: w, Ebnf.cons_mem_just_mul.2 ⟨rfl, hw⟩⟩, fun t' ht' w' hw' => ?_⟩
  obtain ⟨rfl, -⟩ := Ebnf.cons_mem_just_mul.1 hw'
  exact ht ht'

theorem add (hK : Follows tokens K) (ht : t ∉ tokens) :
    Follows tokens (K + (Ebnf.just t).language * N) := by
  obtain ⟨w, hw⟩ := hK.nonempty
  refine ⟨⟨w, .inl hw⟩, fun t' ht' w hw => ?_⟩
  rcases hw with hw | hw
  · exact hK.avoids t' ht' w hw
  · obtain ⟨rfl, -⟩ := Ebnf.cons_mem_just_mul.1 hw
    exact ht ht'

theorem mono {tokens' : List Token} (hK : Follows tokens K) (h : tokens' ⊆ tokens) : Follows tokens' K :=
  ⟨hK.nonempty, fun t ht => hK.avoids t (h ht)⟩

end Follows

/-- If the reader succeeds, it turns the continuations `M` into `K`; if it fails, it does so at the first lexeme that
is impossible in `M`. -/
structure Tracks {α : Type} {n : Nat} (M K : Language Token) (ts : List Lexeme)
    (x : Except ParseError (Parsed α n)) : Prop where
  ok : ∀ r, x = .ok r → Advances M K ts r.rest
  error : ∀ e, x = .error e → e.Locates M ts

namespace Tracks

variable {α β : Type} {m n : Nat} {M K N : Language Token} {ts mid rest : List Lexeme} {l : Lexeme} {t : Token}

theorem after {x : Except ParseError (Parsed α n)} (h : Advances M K ts mid) (hx : Tracks K N mid x) :
    Tracks M N ts x :=
  ⟨fun r hr => h.trans (hx.ok r hr), fun e he => h.locates (hx.error e he)⟩

theorem success {r : Parsed α n} (h : Advances M K ts r.rest) : Tracks M K ts (.ok r) := by
  constructor
  · rintro _ ⟨⟩
    exact h
  · rintro _ ⟨⟩

theorem of_yields {x : Except ParseError (Parsed α n)} {v : α} (hx : Parsed.Yields x v rest)
    (h : Advances M K ts rest) : Tracks M K ts x := by
  obtain ⟨r, rfl, -, rfl⟩ := hx
  exact .success h

theorem failure {e : ParseError} (h : e.Locates M ts) :
    Tracks M K ts (.error e : Except ParseError (Parsed α n)) := by
  constructor
  · rintro _ ⟨⟩
  · rintro _ ⟨⟩
    exact h

theorem bind {x : Except ParseError (Parsed α m)} {f : Parsed α m → Except ParseError (Parsed β n)}
    (hx : Tracks M K ts x) (hf : ∀ r, x = .ok r → Tracks K N r.rest (f r)) : Tracks M N ts (x >>= f) := by
  cases x with
  | error e => exact .failure (hx.error e rfl)
  | ok r => exact .after (hx.ok r rfl) (hf r rfl)

/-- The last step of a reader, where the value is put together. -/
theorem map {x : Except ParseError (Parsed α m)} {f : Parsed α m → Parsed β n} (hx : Tracks M K ts x)
    (hf : ∀ r, (f r).rest = r.rest) : Tracks M K ts (x >>= fun r => pure (f r)) :=
  hx.bind fun r _ => .success (by rw [hf r]; exact .refl)

theorem unexpected {expected : Expected} (hM : ∃ w, w ∈ M) (hl : ∀ w, l.token :: w ∉ M) :
    Tracks M K (l :: rest) (.error (.unexpected l expected) : Except ParseError (Parsed α n)) :=
  .failure ⟨l, .head hM hl, rfl⟩

theorem unexpectedEnd {expected : Expected} (hM : ∃ t w, t :: w ∈ M) :
    Tracks M K [] (.error (.unexpectedEnd expected) : Except ParseError (Parsed α n)) := by
  obtain ⟨t, w, hw⟩ := hM
  exact .failure ⟨t :: w, List.cons_ne_nil _ _, hw⟩

theorem expect (hK : ∃ w, w ∈ K) : Tracks ((just t).language * K) K ts (Lexeme.expect t ts) := by
  obtain ⟨w, hw⟩ := hK
  have hmem : t :: w ∈ (just t).language * K := Ebnf.cons_mem_just_mul.2 ⟨rfl, hw⟩
  cases ts with
  | nil => exact .unexpectedEnd ⟨t, w, hmem⟩
  | cons l ts =>
      rw [Lexeme.expect]
      split
      · rename_i hl
        exact .success (.cons fun w => by simp [hl])
      · rename_i hl
        exact .unexpected ⟨_, hmem⟩ fun w => by simp [hl]

theorem nextName {expected : Expected} (hK : ∃ w, w ∈ K) :
    Tracks (Ebnf.name.language * K) K ts (Lexeme.nextName expected ts) := by
  obtain ⟨w, hw⟩ := hK
  have hmem : .name "" :: w ∈ Ebnf.name.language * K := Ebnf.cons_mem_token_mul.2 ⟨rfl, hw⟩
  cases ts with
  | nil => exact .unexpectedEnd ⟨_, w, hmem⟩
  | cons l ts =>
      rw [Lexeme.nextName]
      split
      · rename_i hl
        exact .success (.cons fun w => by simp [Ebnf.name, hl])
      · rename_i hl
        exact .unexpected ⟨_, hmem⟩ fun w => by simp [Ebnf.name, hl]

/-- A reader that looks at the next lexeme whatever it is. -/
theorem bind_next {expected : Expected} {f : Parsed Lexeme ts.length → Except ParseError (Parsed α n)}
    (hM : ∃ t w, t :: w ∈ M) (hf : ∀ r, Tracks M K (r.value :: r.rest) (f r)) :
    Tracks M K ts (Lexeme.next expected ts >>= f) := by
  cases ts with
  | nil => exact .unexpectedEnd hM
  | cons l ts => exact hf ⟨l, l.span.stop, ts, Nat.lt_succ_self _⟩

/-- A reader that goes on differently if the next lexeme is this one. -/
theorem eat {stop : Nat} {x y : Except ParseError (Parsed α n)} (hK : ∀ w, t :: w ∉ K)
    (hx : Tracks M N (Lexeme.eat t stop ts).rest x) (hy : Lexeme.firstToken? ts ≠ some t → Tracks K N ts y) :
    Tracks (K + (just t).language * M) N ts (if (Lexeme.eat t stop ts).value then x else y) := by
  by_cases hts : Lexeme.firstToken? ts = some t
  · obtain ⟨l, rest, rfl, hl⟩ := Lexeme.firstToken?_eq_some_iff.1 hts
    obtain ⟨hvalue, hrest⟩ := Lexeme.eat_of_first stop rest hl
    rw [if_pos hvalue]
    rw [hrest] at hx
    exact .after (.take rfl hl hK) hx
  · obtain ⟨hvalue, -⟩ := Lexeme.eat_of_not_first stop hts
    rw [hvalue, if_neg Bool.false_ne_true]
    exact .after (.skip hts) (hy hts)

end Tracks

end Tabula
