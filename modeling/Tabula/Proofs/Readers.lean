import Tabula.Scheme.Parser

/-!
# What the readers do

Every reader of `UnitScheme` and `Scheme` is described by one equivalence: it succeeds with a value and leaves
certain lexemes exactly if its parts do so.  Where a lexeme ends is of no account to what is read, so places in
the source do not occur on the right-hand sides.

The two theorems about the grammar use these equivalences and do not open a reader again.
-/

namespace Tabula

namespace Parsed

/-- The reader succeeds with the value `v` and leaves the lexemes `rest`. -/
def Yields {α : Type} {n : Nat} (x : Except ParseError (Parsed α n)) (v : α) (rest : List Lexeme) : Prop :=
  ∃ r, x = .ok r ∧ r.value = v ∧ r.rest = rest

section Yields

variable {α β : Type} {m n : Nat} {v : α} {rest : List Lexeme}

/-- A reader that is done yields its value. -/
@[simp] theorem yields_ok {r : Parsed α n} :
    Yields (.ok r) v rest ↔ r.value = v ∧ r.rest = rest := by
  constructor
  · rintro ⟨r, h, hv, hrest⟩
    cases h
    exact ⟨hv, hrest⟩
  · rintro ⟨hv, hrest⟩
    exact ⟨r, rfl, hv, hrest⟩

/-- A reader that fails yields nothing. -/
@[simp] theorem not_yields_error {e : ParseError} :
    ¬ Yields (.error e : Except ParseError (Parsed α n)) v rest := by
  rintro ⟨r, h, -⟩
  cases h

@[simp] theorem yields_pure {r : Parsed α n} :
    Yields (pure r : Except ParseError _) v rest ↔ r.value = v ∧ r.rest = rest :=
  yields_ok

@[simp] theorem not_yields_throw {e : ParseError} :
    ¬ Yields (throw e : Except ParseError (Parsed α n)) v rest :=
  not_yields_error

/-- A reader that begins with another one yields what the second part yields. -/
theorem yields_bind {x : Except ParseError β} {f : β → Except ParseError (Parsed α n)} :
    Yields (x >>= f) v rest ↔ ∃ r, x = .ok r ∧ Yields (f r) v rest := by
  cases x with
  | error e => simp [bind, Except.bind]
  | ok b => simp [bind, Except.bind]

@[simp] theorem value_map (f : α → β) (r : Parsed α n) : (r.map f).value = f r.value := rfl

@[simp] theorem rest_map (f : α → β) (r : Parsed α n) : (r.map f).rest = r.rest := rfl

@[simp] theorem value_widen (r : Parsed α m) (h : m ≤ n) : (r.widen h).value = r.value := rfl

@[simp] theorem rest_widen (r : Parsed α m) (h : m ≤ n) : (r.widen h).rest = r.rest := rfl

end Yields

end Parsed

open Parsed (Yields yields_bind)

namespace Lexeme

/-- The token of the first lexeme. -/
def firstToken? (ts : List Lexeme) : Option Token :=
  ts.head?.map Lexeme.token

@[simp] theorem firstToken?_nil : firstToken? [] = none := rfl

@[simp] theorem firstToken?_cons (l : Lexeme) (ts : List Lexeme) : firstToken? (l :: ts) = some l.token := rfl

/-- There is a first token if there is a lexeme. -/
theorem firstToken?_eq_some_iff {ts : List Lexeme} {t : Token} :
    firstToken? ts = some t ↔ ∃ l rest, ts = l :: rest ∧ l.token = t := by
  cases ts <;> simp

/-- The next lexeme is taken, whatever it is. -/
theorem yields_next {e : Expected} {ts : List Lexeme} {l : Lexeme} {rest : List Lexeme} :
    Yields (next e ts) l rest ↔ ts = l :: rest := by
  cases ts <;> simp [next]

/-- A lexeme is taken if it is the token that is expected. -/
theorem yields_expect {t : Token} {ts : List Lexeme} {l : Lexeme} {rest : List Lexeme} :
    Yields (expect t ts) l rest ↔ ts = l :: rest ∧ l.token = t := by
  cases ts with
  | nil => simp [expect]
  | cons l' rest' =>
      simp only [expect]
      split
      · rename_i h
        simp only [Parsed.yields_ok, List.cons.injEq]
        constructor
        · rintro ⟨rfl, rfl⟩
          exact ⟨⟨rfl, rfl⟩, h⟩
        · rintro ⟨⟨rfl, rfl⟩, -⟩
          exact ⟨rfl, rfl⟩
      · rename_i h
        simp only [Parsed.not_yields_error, List.cons.injEq, false_iff]
        rintro ⟨⟨rfl, rfl⟩, hl⟩
        exact h hl

/-- The reader of one token ends where the lexeme ends. -/
theorem stop_of_expect {t : Token} {ts : List Lexeme} {r : Parsed Lexeme ts.length} (h : expect t ts = .ok r) :
    r.stop = r.value.span.stop := by
  cases ts with
  | nil => simp [expect] at h
  | cons l ts =>
      simp only [expect] at h
      split at h
      · cases h
        rfl
      · cases h

/-- A name is taken from a lexeme that can stand for one, together with its place. -/
theorem yields_nextName {e : Expected} {ts : List Lexeme} {n : Name} {s : Span} {rest : List Lexeme} :
    Yields (nextName e ts) (n, s) rest ↔
      ∃ l, ts = l :: rest ∧ l.token.asName? = some n ∧ l.span = s := by
  cases ts with
  | nil => simp [nextName]
  | cons l' rest' =>
      simp only [nextName]
      split
      · rename_i n' h
        simp only [Parsed.yields_ok, Prod.mk.injEq, List.cons.injEq]
        constructor
        · rintro ⟨⟨rfl, rfl⟩, rfl⟩
          exact ⟨l', ⟨rfl, rfl⟩, h, rfl⟩
        · rintro ⟨l, ⟨rfl, rfl⟩, hn, rfl⟩
          rw [h] at hn
          exact ⟨⟨Option.some.inj hn, rfl⟩, rfl⟩
      · rename_i h
        simp only [Parsed.not_yields_error, List.cons.injEq, false_iff]
        rintro ⟨l, ⟨rfl, rfl⟩, hn, -⟩
        rw [h] at hn
        cases hn

/-- A reader whose last step is a closing token. -/
theorem yields_closed {α β : Type} {m n : Nat} {x : Except ParseError (Parsed α n)} {t : Token} (g : α → β)
    {h : ∀ r : Parsed α n, Parsed Lexeme r.rest.length → r.rest.length ≤ m} {v : β} {rest : List Lexeme} :
    Yields (do
      let r ← x
      let c ← expect t r.rest
      return (c.map fun _ => g r.value).widen (h r c)) v rest ↔
      ∃ u c, Yields x u (c :: rest) ∧ c.token = t ∧ g u = v := by
  simp only [yields_bind, Parsed.yields_pure, Parsed.value_widen, Parsed.value_map, Parsed.rest_widen,
    Parsed.rest_map]
  constructor
  · rintro ⟨r, hr, close, hclose, hv, rfl⟩
    obtain ⟨hrest, hc⟩ := yields_expect.1 ⟨close, hclose, rfl, rfl⟩
    exact ⟨r.value, close.value, ⟨r, hr, rfl, hrest⟩, hc, hv⟩
  · rintro ⟨_, c, ⟨r, hr, rfl, hrest⟩, hc, hv⟩
    obtain ⟨close, hclose, -, rfl⟩ := yields_expect.2 ⟨hrest, hc⟩
    exact ⟨r, hr, close, hclose, hv, rfl⟩

/-- A token that may be there is taken if it is there. -/
theorem eat_of_first {t : Token} (stop : Nat) {l : Lexeme} (ts : List Lexeme) (h : l.token = t) :
    (eat t stop (l :: ts)).value = true ∧ (eat t stop (l :: ts)).rest = ts := by
  simp [eat, h]

/-- If it is not there, nothing is taken. -/
theorem eat_of_not_first {t : Token} (stop : Nat) {ts : List Lexeme} (h : firstToken? ts ≠ some t) :
    (eat t stop ts).value = false ∧ (eat t stop ts).rest = ts := by
  cases ts with
  | nil => simp [eat]
  | cons l ts =>
      have hl : l.token ≠ t := by simpa using h
      simp [eat, hl]

end Lexeme

open Lexeme (expect next nextName eat startOf firstToken? yields_next yields_expect yields_nextName)

namespace UnitScheme

variable {units : UnitCatalog} {u v : UnitScheme} {start stop : Nat} {ts rest : List Lexeme}

/-- Without a `^` the unit stays as it is. -/
theorem yields_readPower_of_first_ne (h : firstToken? ts ≠ some .pow) :
    Yields (readPower u stop ts) v rest ↔ u = v ∧ ts = rest := by
  cases ts with
  | nil => simp [readPower]
  | cons l ts =>
      have hl : l.token ≠ .pow := by simpa using h
      simp [readPower, hl]

/-- After a `^` there must be an integer, and the power must be in range. -/
theorem yields_readPower_pow {l : Lexeme} (h : l.token = .pow) :
    Yields (readPower u stop (l :: ts)) v rest ↔
      ∃ l' p, ts = l' :: rest ∧ l'.token = .int p ∧ u.raise? p = some v := by
  cases ts with
  | nil => simp [readPower, h, next, bind, Except.bind]
  | cons l' ts =>
      simp only [readPower, h, if_true, next, List.cons.injEq]
      constructor
      · intro hy
        dsimp only [bind, Except.bind] at hy
        split at hy
        · rename_i p hp
          split at hy
          · rename_i w hw
            obtain ⟨rfl, rfl⟩ := Parsed.yields_pure.1 hy
            exact ⟨l', p, ⟨rfl, rfl⟩, hp, hw⟩
          · exact absurd hy Parsed.not_yields_throw
        · exact absurd hy Parsed.not_yields_throw
      · rintro ⟨_, p, ⟨rfl, rfl⟩, hp, hv⟩
        dsimp only [bind, Except.bind]
        rw [hp]
        simp only [hv]
        exact Parsed.yields_pure.2 ⟨rfl, rfl⟩

/-- A unit is a quotient and the factors after it. -/
theorem yields_read :
    Yields (read units ts) v rest ↔
      ∃ first, readQuotient units ts = .ok first ∧
        Yields (readFactors units (startOf ts) first.value first.stop first.rest) v rest := by
  rw [read, yields_bind]
  simp only [yields_bind, Parsed.yields_pure, Parsed.value_widen, Parsed.rest_widen]
  rfl

theorem yields_read_of_quotient {mid : List Lexeme} (hu : Yields (readQuotient units ts) u mid)
    (h : ∀ start stop, Yields (readFactors units start u stop mid) v rest) : Yields (read units ts) v rest := by
  obtain ⟨first, hfirst, rfl, rfl⟩ := hu
  exact yields_read.2 ⟨first, hfirst, h _ _⟩

/-- The product ends where no `*` follows. -/
theorem yields_readFactors_of_first_ne (h : firstToken? ts ≠ some .times) :
    Yields (readFactors units start u stop ts) v rest ↔ u = v ∧ ts = rest := by
  cases ts with
  | nil => simp [readFactors]
  | cons l ts =>
      have hl : l.token ≠ .times := by simpa using h
      simp [readFactors, hl]

/-- After a `*` there is a quotient, and the product of all before it with it goes on. -/
theorem yields_readFactors_times {l : Lexeme} (h : l.token = .times) :
    Yields (readFactors units start u stop (l :: ts)) v rest ↔
      ∃ factor w, readQuotient units ts = .ok factor ∧ u.times? factor.value = some w ∧
        Yields (readFactors units start w factor.stop factor.rest) v rest := by
  rw [readFactors]
  simp only [h, if_true, yields_bind]
  refine exists_congr fun factor => ?_
  constructor
  · rintro ⟨hfactor, hy⟩
    split at hy
    · exact absurd hy Parsed.not_yields_throw
    · rename_i w hw
      obtain ⟨all, hall, hv⟩ := yields_bind.1 hy
      have hv := Parsed.yields_pure.1 hv
      exact ⟨w, hfactor, hw, all, hall, hv⟩
  · rintro ⟨w, hfactor, hw, all, hall, hv⟩
    refine ⟨hfactor, ?_⟩
    rw [hw]
    exact yields_bind.2 ⟨all, hall, Parsed.yields_pure.2 hv⟩

theorem yields_readFactors_of_quotient {l : Lexeme} {mid : List Lexeme} {w x : UnitScheme}
    (hl : l.token = .times) (hw : Yields (readQuotient units ts) w mid) (hx : u.times? w = some x)
    (h : ∀ stop, Yields (readFactors units start x stop mid) v rest) :
    Yields (readFactors units start u stop (l :: ts)) v rest := by
  obtain ⟨factor, hfactor, rfl, rfl⟩ := hw
  exact (yields_readFactors_times hl).2 ⟨factor, x, hfactor, hx, h _⟩

/-- A quotient is one unit or two with a `/` between them.  In neither case another `/` may follow. -/
theorem yields_readQuotient :
    Yields (readQuotient units ts) v rest ↔
      (Yields (readSingle units ts) v rest ∧ firstToken? rest ≠ some .div) ∨
      ∃ w l mid x, Yields (readSingle units ts) w (l :: mid) ∧ l.token = .div ∧
        Yields (readSingle units mid) x rest ∧ firstToken? rest ≠ some .div ∧
        w.divideByInverse? x = some v := by
  rw [readQuotient, yields_bind]
  constructor
  · rintro ⟨num, hnum, hy⟩
    split at hy
    · rename_i hrest
      obtain ⟨rfl, rfl⟩ := Parsed.yields_pure.1 hy
      exact .inl ⟨⟨num, hnum, rfl, rfl⟩, by simp [hrest]⟩
    · rename_i l mid hrest
      split at hy
      · rename_i hl
        obtain ⟨den, hden, hy⟩ := yields_bind.1 hy
        split at hy
        · exact absurd hy Parsed.not_yields_throw
        · rename_i hfirst
          split at hy
          · exact absurd hy Parsed.not_yields_throw
          · rename_i w hw
            obtain ⟨rfl, rfl⟩ := Parsed.yields_pure.1 hy
            refine .inr ⟨num.value, l, mid, den.value, ⟨num, hnum, rfl, hrest⟩, hl,
              ⟨den, hden, rfl, rfl⟩, ?_, hw⟩
            intro (hdiv : firstToken? den.rest = some .div)
            obtain ⟨⟨t, text, span⟩, after, hafter, ht⟩ := Lexeme.firstToken?_eq_some_iff.1 hdiv
            cases ht
            exact hfirst text span (by rw [hafter]; rfl)
      · rename_i hl
        obtain ⟨rfl, rfl⟩ := Parsed.yields_pure.1 hy
        exact .inl ⟨⟨num, hnum, rfl, rfl⟩, by simpa [hrest] using hl⟩
  · rintro (⟨⟨num, hnum, rfl, rfl⟩, hfirst⟩ |
      ⟨_, l, mid, _, ⟨num, hnum, rfl, hrest⟩, hl, ⟨den, hden, rfl, rfl⟩, hfirst, hv⟩)
    · refine ⟨num, hnum, ?_⟩
      split
      · exact Parsed.yields_pure.2 ⟨rfl, rfl⟩
      · rename_i l mid hrest
        have hl : l.token ≠ .div := by simpa [hrest] using hfirst
        rw [if_neg hl]
        exact Parsed.yields_pure.2 ⟨rfl, rfl⟩
    · refine ⟨num, hnum, ?_⟩
      split
      · rename_i hnil
        rw [hrest] at hnil
        cases hnil
      · rename_i l' mid' hrest'
        rw [hrest] at hrest'
        cases hrest'
        rw [if_pos hl]
        refine yields_bind.2 ⟨den, hden, ?_⟩
        split
        · rename_i hdiv
          exact absurd (by rw [firstToken?, hdiv]; rfl) hfirst
        · rw [hv]
          exact Parsed.yields_pure.2 ⟨rfl, rfl⟩

@[simp] theorem not_yields_readSingle_nil : ¬ Yields (readSingle units []) v rest := by
  simp [readSingle]

/-- The only number that is a unit is `1`. -/
theorem yields_readSingle_int {l : Lexeme} {p : Exponent} (h : l.token = .int p) :
    Yields (readSingle units (l :: ts)) v rest ↔ p = 1 ∧ .one = v ∧ ts = rest := by
  rw [readSingle]
  simp only [h]
  split
  · simp [*]
  · simp [*]

/-- Between parentheses there is a unit of any form. -/
theorem yields_readSingle_lparen {l : Lexeme} (h : l.token = .lparen) :
    Yields (readSingle units (l :: ts)) v rest ↔
      ∃ c, Yields (read units ts) v (c :: rest) ∧ c.token = .rparen := by
  rw [readSingle]
  simp only [h]
  refine (Lexeme.yields_closed id).trans ?_
  constructor
  · rintro ⟨u, c, hu, hc, rfl⟩
    exact ⟨c, hu, hc⟩
  · rintro ⟨c, hu, hc⟩
    exact ⟨v, c, hu, hc, rfl⟩

/-- After `@unitvar` there is the name of the variable, and maybe a power. -/
theorem yields_readSingle_unitVar {l : Lexeme} (h : l.token = .unitVar) :
    Yields (readSingle units (l :: ts)) v rest ↔
      ∃ l' n mid, ts = l' :: mid ∧ l'.token.asName? = some n ∧
        Yields (readPower (.single (.var n)) l'.span.stop mid) v rest := by
  rw [readSingle]
  simp only [h]
  cases ts with
  | nil => simp [nextName, bind, Except.bind]
  | cons l' mid =>
      cases hn : l'.token.asName? with
      | none =>
          simp only [nextName, hn, List.cons.injEq]
          constructor
          · exact fun hy => absurd hy Parsed.not_yields_error
          · rintro ⟨_, _, _, ⟨rfl, rfl⟩, hn', -⟩
            rw [hn] at hn'
            cases hn'
      | some n =>
          simp only [nextName, hn, List.cons.injEq]
          constructor
          · intro hy
            obtain ⟨var, hvar, hy⟩ := yields_bind.1 hy
            cases hvar
            obtain ⟨u, hu, hv⟩ := yields_bind.1 hy
            have hv := Parsed.yields_pure.1 hv
            exact ⟨l', n, mid, ⟨rfl, rfl⟩, hn, u, hu, hv⟩
          · rintro ⟨_, _, _, ⟨rfl, rfl⟩, hn', u, hu, hv⟩
            rw [hn] at hn'
            cases hn'
            exact yields_bind.2 ⟨_, rfl, yields_bind.2 ⟨u, hu, Parsed.yields_pure.2 hv⟩⟩

/-- A name is a declared unit, and maybe a power follows. -/
theorem yields_readSingle_name {l : Lexeme} {n : Name} (h : l.token.asName? = some n) :
    Yields (readSingle units (l :: ts)) v rest ↔
      ∃ w, units.find? n = some w ∧ Yields (readPower (.single (.unit w)) l.span.stop ts) v rest := by
  rw [readSingle]
  split
  · rename_i hl
    rw [hl] at h
    cases h
  · rename_i hl
    rw [hl] at h
    cases h
  · rename_i hl
    rw [hl] at h
    cases h
  · simp only [h, UnitCatalog.get]
    cases hw : units.find? n with
    | none => simp
    | some w =>
        simp only [yields_bind, Parsed.yields_pure, Parsed.value_widen, Parsed.rest_widen,
          Option.some.injEq, exists_eq_left']
        rfl

/-- A unit starts with no other token. -/
theorem not_yields_readSingle {l : Lexeme} (hint : ∀ p, l.token ≠ .int p) (hparen : l.token ≠ .lparen)
    (hvar : l.token ≠ .unitVar) (hname : l.token.asName? = none) :
    ¬ Yields (readSingle units (l :: ts)) v rest := by
  rw [readSingle]
  split
  · exact absurd ‹_› (hint _)
  · exact absurd ‹_› hparen
  · exact absurd ‹_› hvar
  · simp [hname]

end UnitScheme

namespace Scheme

variable {units : UnitCatalog} {t : Scheme} {stop : Nat} {ts rest : List Lexeme}

/-- A number without braces has no unit. -/
theorem yields_readNumber_of_first_ne (h : firstToken? ts ≠ some .lbrace) :
    Yields (readNumber units stop ts) t rest ↔ number .one = t ∧ ts = rest := by
  obtain ⟨hvalue, hrest⟩ := Lexeme.eat_of_not_first stop h
  simp [readNumber, hvalue, hrest]

/-- Between braces there is the unit of a number. -/
theorem yields_readNumber_lbrace {l : Lexeme} (h : l.token = .lbrace) :
    Yields (readNumber units stop (l :: ts)) t rest ↔
      ∃ u c, Yields (UnitScheme.read units ts) u (c :: rest) ∧ c.token = .rbrace ∧ number u = t := by
  obtain ⟨hvalue, hrest⟩ := Lexeme.eat_of_first stop ts h
  simp only [readNumber, hvalue, if_true]
  refine (Lexeme.yields_closed number).trans ?_
  rw [hrest]

@[simp] theorem not_yields_read_nil : ¬ Yields (read units []) t rest := by
  simp [read]

/-- A keyword other than `Number` is a type by itself. -/
theorem yields_read_primitive {l : Lexeme} {k : Keyword} {p : Primitive} (h : l.token = .keyword k)
    (hk : primitive? k = some p) :
    Yields (read units (l :: ts)) t rest ↔ primitive p = t ∧ ts = rest := by
  rw [read]
  simp only [h]
  split
  · rename_i q hq
    rw [hk] at hq
    cases hq
    simp
  · rename_i hq
    rw [hk] at hq
    cases hq

theorem yields_read_number {l : Lexeme} (h : l.token = .keyword .number) :
    Yields (read units (l :: ts)) t rest ↔ Yields (readNumber units l.span.stop ts) t rest := by
  rw [read]
  simp only [h, primitive?, yields_bind, Parsed.yields_pure, Parsed.value_widen, Parsed.rest_widen]
  rfl

theorem yields_read_lbracket {l : Lexeme} (h : l.token = .lbracket) :
    Yields (read units (l :: ts)) t rest ↔
      ∃ e c, Yields (read units ts) e (c :: rest) ∧ c.token = .rbracket ∧ array e = t := by
  rw [read]
  simp only [h]
  exact Lexeme.yields_closed array

/-- Two opening parentheses start a function type. -/
theorem yields_read_function {l l' : Lexeme} (h : l.token = .lparen) (h' : l'.token = .lparen) :
    Yields (read units (l :: l' :: ts)) t rest ↔ Yields (readFunction units ts) t rest := by
  obtain ⟨hvalue, hrest⟩ := Lexeme.eat_of_first l.span.stop ts h'
  rw [read]
  simp only [h, hvalue, if_true, yields_bind, Parsed.yields_pure, Parsed.value_widen, Parsed.rest_widen]
  rw [hrest]
  rfl

/-- One opening parenthesis starts a record. -/
theorem yields_read_record {l : Lexeme} (h : l.token = .lparen) (hts : firstToken? ts ≠ some .lparen) :
    Yields (read units (l :: ts)) t rest ↔ Yields (readRecord units ts) t rest := by
  obtain ⟨hvalue, -⟩ := Lexeme.eat_of_not_first l.span.stop hts
  rw [read]
  simp only [h, hvalue, Bool.false_eq_true, if_false, yields_bind, Parsed.yields_pure, Parsed.value_widen,
    Parsed.rest_widen]
  rfl

/-- A name is a tagged type with the arguments that follow it. -/
theorem yields_read_name {l : Lexeme} {n : Name} (h : l.token = .name n) :
    Yields (read units (l :: ts)) t rest ↔
      ∃ as, Yields (readArgs units l.span.stop ts) as rest ∧ tagged n as = t := by
  rw [read]
  simp only [h, yields_bind, Parsed.yields_pure, Parsed.value_widen, Parsed.value_map, Parsed.rest_widen,
    Parsed.rest_map]
  constructor
  · rintro ⟨args, hargs, ht, hrest⟩
    exact ⟨args.value, ⟨args, hargs, rfl, hrest⟩, ht⟩
  · rintro ⟨_, ⟨args, hargs, rfl, hrest⟩, ht⟩
    exact ⟨args, hargs, ht, hrest⟩

/-- A type starts with no other token. -/
theorem not_yields_read {l : Lexeme} (hkeyword : ∀ k, l.token ≠ .keyword k) (hbracket : l.token ≠ .lbracket)
    (hparen : l.token ≠ .lparen) (hname : ∀ n, l.token ≠ .name n) :
    ¬ Yields (read units (l :: ts)) t rest := by
  rw [read]
  split
  · exact absurd ‹_› (hkeyword _)
  · exact absurd ‹_› hbracket
  · exact absurd ‹_› hparen
  · exact absurd ‹_› (hname _)
  · exact Parsed.not_yields_error

/-- A function type has its parameters, an arrow and its result. -/
theorem yields_readFunction :
    Yields (readFunction units ts) t rest ↔
      ∃ ps l mid r c, Yields (readParamList units ts) ps (l :: mid) ∧ l.token = .arrow ∧
        Yields (read units mid) r (c :: rest) ∧ c.token = .rparen ∧ function ps r = t := by
  rw [readFunction]
  simp only [yields_bind, Parsed.yields_pure, Parsed.value_widen, Parsed.value_map, Parsed.rest_widen,
    Parsed.rest_map]
  constructor
  · rintro ⟨params, hparams, arrow, harrow, result, hresult, close, hclose, ht, rfl⟩
    obtain ⟨hmid, hl⟩ := yields_expect.1 ⟨arrow, harrow, rfl, rfl⟩
    obtain ⟨hrest, hc⟩ := yields_expect.1 ⟨close, hclose, rfl, rfl⟩
    exact ⟨params.value, arrow.value, arrow.rest, result.value, close.value, ⟨params, hparams, rfl, hmid⟩, hl,
      ⟨result, hresult, rfl, hrest⟩, hc, ht⟩
  · rintro ⟨_, l, mid, _, c, ⟨params, hparams, rfl, hmid⟩, hl, hr, hc, ht⟩
    obtain ⟨arrow, harrow, -, rfl⟩ := yields_expect.2 ⟨hmid, hl⟩
    obtain ⟨result, hresult, rfl, hrest⟩ := hr
    obtain ⟨close, hclose, -, rfl⟩ := yields_expect.2 ⟨hrest, hc⟩
    exact ⟨params, hparams, arrow, harrow, result, hresult, close, hclose, ht, rfl⟩

section Params

variable {ps : List Scheme}

theorem yields_readParamList_rparen {l : Lexeme} (h : l.token = .rparen) :
    Yields (readParamList units (l :: ts)) ps rest ↔ [] = ps ∧ ts = rest := by
  rw [readParamList]
  simp [h]

theorem yields_readParamList_of_first_ne (h : firstToken? ts ≠ some .rparen) :
    Yields (readParamList units ts) ps rest ↔ Yields (readParams units ts) ps rest := by
  cases ts with
  | nil => rw [readParamList]
  | cons l ts =>
      have hl : l.token ≠ .rparen := by simpa using h
      rw [readParamList, if_neg hl]

/-- Parameters are separated by commas, and a parenthesis ends them. -/
theorem yields_readParams :
    Yields (readParams units ts) ps rest ↔
      (∃ t c, Yields (read units ts) t (c :: rest) ∧ c.token = .rparen ∧ [t] = ps) ∨
      ∃ t l mid qs, Yields (read units ts) t (l :: mid) ∧ l.token = .comma ∧
        Yields (readParams units mid) qs rest ∧ t :: qs = ps := by
  rw [readParams]
  constructor
  · intro hy
    obtain ⟨first, hfirst, hy⟩ := yields_bind.1 hy
    obtain ⟨mark, hmark, hy⟩ := yields_bind.1 hy
    have hrest := yields_next.1 ⟨mark, hmark, rfl, rfl⟩
    split at hy
    · rename_i hcomma
      obtain ⟨others, hothers, hy⟩ := yields_bind.1 hy
      obtain ⟨hps, hr⟩ := Parsed.yields_pure.1 hy
      exact .inr ⟨first.value, mark.value, mark.rest, others.value, ⟨first, hfirst, rfl, hrest⟩, hcomma,
        ⟨others, hothers, rfl, hr⟩, hps⟩
    · rename_i hclose
      obtain ⟨hps, rfl⟩ := Parsed.yields_pure.1 hy
      exact .inl ⟨first.value, mark.value, ⟨first, hfirst, rfl, hrest⟩, hclose, hps⟩
    · exact absurd hy Parsed.not_yields_throw
  · rintro (⟨_, c, ⟨first, hfirst, rfl, hrest⟩, hc, rfl⟩ |
      ⟨_, l, mid, _, ⟨first, hfirst, rfl, hrest⟩, hl, hqs, rfl⟩)
    · obtain ⟨mark, hmark, rfl, rfl⟩ := (yields_next (e := .commaOrClose)).2 hrest
      refine yields_bind.2 ⟨first, hfirst, yields_bind.2 ⟨mark, hmark, ?_⟩⟩
      rw [hc]
      exact Parsed.yields_pure.2 ⟨rfl, rfl⟩
    · obtain ⟨mark, hmark, rfl, rfl⟩ := (yields_next (e := .commaOrClose)).2 hrest
      obtain ⟨others, hothers, rfl, rfl⟩ := hqs
      refine yields_bind.2 ⟨first, hfirst, yields_bind.2 ⟨mark, hmark, ?_⟩⟩
      rw [hl]
      exact yields_bind.2 ⟨others, hothers, Parsed.yields_pure.2 ⟨rfl, rfl⟩⟩

end Params

theorem yields_readRecord_rparen {l : Lexeme} (h : l.token = .rparen) :
    Yields (readRecord units (l :: ts)) t rest ↔ record [] true = t ∧ ts = rest := by
  rw [readRecord]
  simp [h]

theorem yields_readRecord_of_first_ne (h : firstToken? ts ≠ some .rparen) :
    Yields (readRecord units ts) t rest ↔ Yields (readFields units [] ts) t rest := by
  cases ts with
  | nil => rw [readRecord]
  | cons l ts =>
      have hl : l.token ≠ .rparen := by simpa using h
      rw [readRecord, if_neg hl]

section Fields

variable {fields : List (Field Scheme)} {f : Field Scheme} {s : Span}

/-- A field is a name, a question mark unless it is required, a colon and a type. -/
theorem yields_readField :
    Yields (readField units ts) (f, s) rest ↔
      ∃ l mark c mid, ts = l :: (mark ++ c :: mid) ∧ l.token.asName? = some f.name ∧ l.span = s ∧
        mark.map Lexeme.token = (if f.required then [] else [.question]) ∧ c.token = .colon ∧
        Yields (read units mid) f.type rest := by
  rw [readField]
  simp only [yields_bind, Parsed.yields_pure, Parsed.value_widen, Parsed.value_map, Parsed.rest_widen,
    Parsed.rest_map]
  constructor
  · rintro ⟨name, hname, colon, hcolon, type, htype, hf, rfl⟩
    obtain ⟨l, hts, hn, hs⟩ := yields_nextName.1 ⟨name, hname, rfl, rfl⟩
    obtain ⟨hmid, hc⟩ := yields_expect.1 ⟨colon, hcolon, rfl, rfl⟩
    cases hf
    by_cases hq : firstToken? name.rest = some .question
    · obtain ⟨q, after, hafter, hq⟩ := Lexeme.firstToken?_eq_some_iff.1 hq
      obtain ⟨hvalue, hrest⟩ := Lexeme.eat_of_first name.stop after hq
      rw [← hafter] at hvalue hrest
      have hmid := hrest.symm.trans hmid
      refine ⟨l, [q], colon.value, colon.rest, by simp [hts, hafter, hmid], hn, hs, ?_, hc, type, htype, rfl, rfl⟩
      simp [hvalue, hq]
    · obtain ⟨hvalue, hrest⟩ := Lexeme.eat_of_not_first name.stop hq
      have hmid := hrest.symm.trans hmid
      refine ⟨l, [], colon.value, colon.rest, by simp [hts, hmid], hn, hs, ?_, hc, type, htype, rfl, rfl⟩
      simp [hvalue]
  · rintro ⟨l, mark, c, mid, rfl, hn, rfl, hmark, hc, htype⟩
    obtain ⟨name, hname, hvalue, hrest⟩ : Yields (nextName .fieldName (l :: (mark ++ c :: mid)))
        (f.name, l.span) (mark ++ c :: mid) := yields_nextName.2 ⟨l, rfl, hn, rfl⟩
    have heat : (eat .question name.stop name.rest).rest = c :: mid ∧
        (!(eat .question name.stop name.rest).value) = f.required := by
      rw [hrest]
      cases hrequired : f.required with
      | true =>
          obtain rfl : mark = [] := by simpa [hrequired] using hmark
          have hfirst : firstToken? (c :: mid) ≠ some .question := by simp [hc]
          simp [Lexeme.eat_of_not_first name.stop hfirst]
      | false =>
          obtain ⟨q, rfl, hq⟩ : ∃ q, mark = [q] ∧ q.token = .question := by
            simpa [hrequired, List.map_eq_cons_iff] using hmark
          simp [Lexeme.eat_of_first name.stop (c :: mid) hq]
    obtain ⟨colon, hcolon, -, hrest⟩ := yields_expect.2 ⟨heat.1, hc⟩
    rw [← hrest] at htype
    obtain ⟨type, htype, hf, rfl⟩ := htype
    refine ⟨name, hname, colon, hcolon, type, htype, ?_, rfl⟩
    rw [heat.2, hvalue, hf]

/-- After the dots a record must end. -/
theorem yields_readFields_ellipsis {l : Lexeme} (h : l.token = .ellipsis) :
    Yields (readFields units fields (l :: ts)) t rest ↔
      ∃ c, ts = c :: rest ∧ c.token = .rparen ∧ record fields false = t := by
  obtain ⟨hvalue, hrest⟩ := Lexeme.eat_of_first 0 ts h
  rw [readFields]
  simp only [hvalue, if_true, yields_bind, Parsed.yields_pure, Parsed.value_widen, Parsed.value_map,
    Parsed.rest_widen, Parsed.rest_map]
  rw [hrest]
  constructor
  · rintro ⟨close, hclose, ht, rfl⟩
    obtain ⟨hts, hc⟩ := yields_expect.1 ⟨close, hclose, rfl, rfl⟩
    exact ⟨close.value, hts, hc, ht⟩
  · rintro ⟨c, hts, hc, ht⟩
    obtain ⟨close, hclose, -, rfl⟩ := yields_expect.2 ⟨hts, hc⟩
    exact ⟨close, hclose, ht, rfl⟩

/-- A field has a name that no field before it has.  Then the record ends or a comma follows. -/
theorem yields_readFields_of_first_ne (h : firstToken? ts ≠ some .ellipsis) :
    Yields (readFields units fields ts) t rest ↔
      ∃ f s l mid, Yields (readField units ts) (f, s) (l :: mid) ∧ Field.find? f.name fields = none ∧
        ((l.token = .rparen ∧ mid = rest ∧ record (Field.insert f fields) true = t) ∨
          (l.token = .comma ∧ Yields (readFields units (Field.insert f fields) mid) t rest)) := by
  obtain ⟨hvalue, -⟩ := Lexeme.eat_of_not_first 0 h
  rw [readFields]
  simp only [hvalue, Bool.false_eq_true, if_false]
  constructor
  · intro hy
    obtain ⟨field, hfield, hy⟩ := yields_bind.1 hy
    split at hy
    · exact absurd hy Parsed.not_yields_throw
    · rename_i hnew
      have hnew : Field.find? field.value.1.name fields = none := by simpa using hnew
      obtain ⟨mark, hmark, hy⟩ := yields_bind.1 hy
      have hrest := yields_next.1 ⟨mark, hmark, rfl, rfl⟩
      refine ⟨field.value.1, field.value.2, mark.value, mark.rest, ⟨field, hfield, rfl, hrest⟩, hnew, ?_⟩
      split at hy
      · rename_i hcomma
        obtain ⟨all, hall, hy⟩ := yields_bind.1 hy
        have hy := Parsed.yields_pure.1 hy
        exact .inr ⟨hcomma, all, hall, hy⟩
      · rename_i hclose
        obtain ⟨ht, hr⟩ := Parsed.yields_pure.1 hy
        exact .inl ⟨hclose, hr, ht⟩
      · exact absurd hy Parsed.not_yields_throw
  · rintro ⟨f, s, l, mid, ⟨field, hfield, hvalue, hrest⟩, hnew, hy⟩
    obtain ⟨mark, hmark, rfl, rfl⟩ := (yields_next (e := .commaOrClose)).2 hrest
    refine yields_bind.2 ⟨field, hfield, ?_⟩
    have hf : field.value.1 = f := by rw [hvalue]
    rw [hf, hnew, if_neg (by simp)]
    refine yields_bind.2 ⟨mark, hmark, ?_⟩
    rcases hy with ⟨hl, rfl, rfl⟩ | ⟨hl, all, hall, rfl, rfl⟩
    · rw [hl]
      exact Parsed.yields_pure.2 ⟨rfl, rfl⟩
    · rw [hl]
      exact yields_bind.2 ⟨all, hall, Parsed.yields_pure.2 ⟨rfl, rfl⟩⟩

end Fields

section Args

variable {a : Arg UnitScheme Scheme} {as : List (Arg UnitScheme Scheme)}

theorem yields_readArgs_of_first_ne (h : firstToken? ts ≠ some .lparen) :
    Yields (readArgs units stop ts) as rest ↔ [] = as ∧ ts = rest := by
  cases ts with
  | nil => simp [readArgs]
  | cons l ts =>
      have hl : l.token ≠ .lparen := by simpa using h
      simp [readArgs, hl]

/-- An argument stands between parentheses of its own. -/
theorem yields_readArgs_lparen {l : Lexeme} (h : l.token = .lparen) :
    Yields (readArgs units stop (l :: ts)) as rest ↔
      ∃ a c mid bs, Yields (readArg units ts) a (c :: mid) ∧ c.token = .rparen ∧
        Yields (readArgs units c.span.stop mid) bs rest ∧ a :: bs = as := by
  rw [readArgs]
  simp only [h, if_true, yields_bind, Parsed.yields_pure, Parsed.value_widen, Parsed.value_map,
    Parsed.rest_widen, Parsed.rest_map]
  constructor
  · rintro ⟨arg, harg, close, hclose, others, hothers, has, rfl⟩
    obtain ⟨hmid, hc⟩ := yields_expect.1 ⟨close, hclose, rfl, rfl⟩
    rw [Lexeme.stop_of_expect hclose] at hothers
    exact ⟨arg.value, close.value, close.rest, others.value, ⟨arg, harg, rfl, hmid⟩, hc,
      ⟨others, hothers, rfl, rfl⟩, has⟩
  · rintro ⟨_, c, mid, _, ⟨arg, harg, rfl, hmid⟩, hc, hbs, has⟩
    obtain ⟨close, hclose, rfl, rfl⟩ := yields_expect.2 ⟨hmid, hc⟩
    rw [← Lexeme.stop_of_expect hclose] at hbs
    obtain ⟨others, hothers, rfl, rfl⟩ := hbs
    exact ⟨arg, harg, close, hclose, others, hothers, has, rfl⟩

/-- An argument between braces is a unit. -/
theorem yields_readArg_lbrace {l : Lexeme} (h : l.token = .lbrace) :
    Yields (readArg units (l :: ts)) a rest ↔
      ∃ u c, Yields (UnitScheme.read units ts) u (c :: rest) ∧ c.token = .rbrace ∧ .unit u = a := by
  obtain ⟨hvalue, hrest⟩ := Lexeme.eat_of_first 0 ts h
  rw [readArg]
  simp only [hvalue, if_true]
  refine (Lexeme.yields_closed Arg.unit).trans ?_
  rw [hrest]

theorem yields_readArg_of_first_ne (h : firstToken? ts ≠ some .lbrace) :
    Yields (readArg units ts) a rest ↔ ∃ t, Yields (read units ts) t rest ∧ .type t = a := by
  obtain ⟨hvalue, -⟩ := Lexeme.eat_of_not_first 0 h
  rw [readArg]
  simp only [hvalue, Bool.false_eq_true, if_false, yields_bind, Parsed.yields_pure, Parsed.value_map,
    Parsed.rest_map]
  constructor
  · rintro ⟨type, htype, ha, hrest⟩
    exact ⟨type.value, ⟨type, htype, rfl, hrest⟩, ha⟩
  · rintro ⟨_, ⟨type, htype, rfl, hrest⟩, ha⟩
    exact ⟨type, htype, ha, hrest⟩

end Args

end Scheme

end Tabula
