import Tabula.Proofs.GrammarReading

/-!
# Where errors stand

What an error of a reader says about the lexemes of the text it was read from.  An unexpected token and a second slash
are lexemes of the text.  A power is refused where a number stands in the place of a unit, and where a product or a
quotient is too large; then the place runs from the first lexeme of that product or quotient to the last one that was
read.  A repeated field stands behind other fields of its record, and one of them has its name.

A reader of a part knows little of what stands before the part.  That the lexemes it reads are the last ones of the
text, and which lexeme they follow, is enough to tell where an error stands in the whole text.
-/

namespace Tabula

open Parsed (Yields)
open Lexeme (firstToken? startOf)

namespace Lexeme

/-- The place starts where the first of the lexemes starts and ends where the last one ends. -/
structure RunsOver (used : List Lexeme) (span : Span) : Prop where
  first : ∃ l, used.head? = some l ∧ l.span.start = span.start
  last : ∃ l, used.getLast? = some l ∧ l.span.stop = span.stop

/-- The lexemes `ts` end the text `ls`, and stand behind one of the tokens unless they are the whole text. -/
def StandsBehind (tokens : List Token) (ls ts : List Lexeme) : Prop :=
  ∃ before, ls = before ++ ts ∧ ∀ l, before.getLast? = some l → l.token ∈ tokens

/-- A quotient with this last lexeme does not go on: no slash follows it, and no power if it is a name. -/
def GoesNoFurther (last : Lexeme) (after : List Lexeme) : Prop :=
  firstToken? after ≠ some .div ∧ (last.token.asName?.isSome = true → firstToken? after ≠ some .pow)

section StandsBehind

variable {tokens : List Token} {ls ts : List Lexeme}

theorem standsBehind_all : StandsBehind tokens ls ls :=
  ⟨[], rfl, fun _ h => by cases h⟩

theorem StandsBehind.suffix (h : StandsBehind tokens ls ts) : ts <:+ ls := by
  obtain ⟨before, hls, -⟩ := h
  exact ⟨before, hls.symm⟩

theorem StandsBehind.mono {tokens' : List Token} (h : StandsBehind tokens ls ts) (hsub : tokens ⊆ tokens') :
    StandsBehind tokens' ls ts := by
  obtain ⟨before, hls, hbefore⟩ := h
  exact ⟨before, hls, fun l hl => hsub (hbefore l hl)⟩

theorem standsBehind_of_suffix {l : Lexeme} (h : l :: ts <:+ ls) (hl : l.token ∈ tokens) :
    StandsBehind tokens ls ts := by
  obtain ⟨before, rfl⟩ := h
  refine ⟨before ++ [l], by simp, fun l' hl' => ?_⟩
  obtain rfl : l = l' := by simpa using hl'
  exact hl

end StandsBehind

theorem mem_of_suffix {ls ts : List Lexeme} {l : Lexeme} (h : l :: ts <:+ ls) : l ∈ ls :=
  h.subset List.mem_cons_self

theorem suffix_of_cons {ls ts : List Lexeme} {l : Lexeme} (h : l :: ts <:+ ls) : ts <:+ ls :=
  (List.suffix_cons l ts).trans h

end Lexeme

open Lexeme (StandsBehind RunsOver)

/-- Two units that follow one another in the text, with a sign between them, cannot be combined, and this is where they
stand.  They stand at the beginning of the text or behind one of the `openers`. -/
def Overflows (units : UnitCatalog) (openers : List Token) (left right : UnitScheme → Phrase) (sign : Token)
    (combine? : UnitScheme → UnitScheme → Option UnitScheme) (ls : List Lexeme) (span : Span) : Prop :=
  ∃ ts l ts' last after u v, StandsBehind openers ls (ts ++ l :: (ts' ++ last :: after)) ∧ l.token = sign ∧
    Derives units (ts.map Lexeme.token) (left u) ∧ Derives units ((ts' ++ [last]).map Lexeme.token) (right v) ∧
    last.GoesNoFurther after ∧ combine? u v = none ∧ RunsOver (ts ++ l :: (ts' ++ [last])) span

/-- A number other than one stands in the place of a unit. -/
def MisplacedNumber (ls : List Lexeme) (span : Span) : Prop :=
  ∃ l after p, StandsBehind [.lparen, .lbrace, .times, .div] ls (l :: after) ∧ l.token = .int p ∧ p ≠ 1 ∧ l.span = span

/-- A field of this name stands in a record behind other fields, and one of these has the same name. -/
def RepeatedField (units : UnitCatalog) (ls : List Lexeme) (span : Span) (name : Name) : Prop :=
  ∃ o earlier comma l field after fs f, o :: (earlier ++ comma :: l :: field ++ after) <:+ ls ∧ o.token = .lparen ∧
    Derives units (earlier.map Lexeme.token) (.fields fs true) ∧ comma.token = .comma ∧
    Derives units ((l :: field).map Lexeme.token) (.field f) ∧ l.token.asName? = some name ∧ l.span = span ∧
    f.name = name ∧ name ∈ fs.map Field.name

namespace ParseError

/-- What the error says is so in the text with these lexemes. -/
def Meaningful (units : UnitCatalog) (ls : List Lexeme) : ParseError → Prop
  | unreadable _ => False
  | unexpectedToken span found _ => ∃ l ∈ ls, l.span = span ∧ l.text = found
  | invalidExponent span =>
      MisplacedNumber ls span ∨
      Overflows units [.lparen, .lbrace] .unit .quotient .times Product.times? ls span ∨
      Overflows units [.lparen, .lbrace, .times] .single .single .div Product.divideByInverse? ls span
  | chainedDivision span => ∃ l ∈ ls, l.token = .div ∧ l.span = span
  | duplicateField span name => RepeatedField units ls span name
  | unexpectedEnd _ | unknownUnit _ => True

end ParseError

/-- If the reader succeeds, it leaves the last lexemes of the text; if it fails, the error is meaningful there. -/
structure Reports {α : Type} {n : Nat} (units : UnitCatalog) (ls : List Lexeme)
    (x : Except ParseError (Parsed α n)) : Prop where
  ok : ∀ r, x = .ok r → r.rest <:+ ls
  error : ∀ e, x = .error e → e.Meaningful units ls

namespace Reports

variable {α β : Type} {m n : Nat} {units : UnitCatalog} {ls ts rest : List Lexeme} {l : Lexeme} {t : Token}

theorem success {r : Parsed α n} (h : r.rest <:+ ls) : Reports units ls (.ok r) := by
  constructor
  · rintro _ ⟨⟩
    exact h
  · rintro _ ⟨⟩

theorem of_yields {x : Except ParseError (Parsed α n)} {v : α} (hx : Yields x v rest) (h : rest <:+ ls) :
    Reports units ls x := by
  obtain ⟨r, rfl, -, rfl⟩ := hx
  exact .success h

theorem failure {e : ParseError} (h : e.Meaningful units ls) :
    Reports units ls (.error e : Except ParseError (Parsed α n)) := by
  constructor
  · rintro _ ⟨⟩
  · rintro _ ⟨⟩
    exact h

theorem bind {x : Except ParseError (Parsed α m)} {f : Parsed α m → Except ParseError (Parsed β n)}
    (hx : Reports units ls x) (hf : ∀ r, x = .ok r → r.rest <:+ ls → Reports units ls (f r)) :
    Reports units ls (x >>= f) := by
  cases x with
  | error e => exact .failure (hx.error e rfl)
  | ok r => exact hf r rfl (hx.ok r rfl)

/-- The last step of a reader, where the value is put together. -/
theorem map {x : Except ParseError (Parsed α m)} {f : Parsed α m → Parsed β n} (hx : Reports units ls x)
    (hf : ∀ r, (f r).rest = r.rest) : Reports units ls (x >>= fun r => pure (f r)) :=
  hx.bind fun r _ hr => .success (by rwa [hf r])

theorem unexpected {expected : Expected} (hl : l ∈ ls) :
    Reports units ls (.error (.unexpected l expected) : Except ParseError (Parsed α n)) :=
  .failure ⟨l, hl, rfl, rfl⟩

theorem expect (h : ts <:+ ls) : Reports units ls (Lexeme.expect t ts) := by
  cases ts with
  | nil => exact .failure trivial
  | cons l ts =>
      rw [Lexeme.expect]
      split
      · exact .success (Lexeme.suffix_of_cons h)
      · exact .unexpected (Lexeme.mem_of_suffix h)

theorem nextName {expected : Expected} (h : ts <:+ ls) : Reports units ls (Lexeme.nextName expected ts) := by
  cases ts with
  | nil => exact .failure trivial
  | cons l ts =>
      rw [Lexeme.nextName]
      split
      · exact .success (Lexeme.suffix_of_cons h)
      · exact .unexpected (Lexeme.mem_of_suffix h)

/-- A reader that looks at the next lexeme whatever it is. -/
theorem bind_next {expected : Expected} {f : Parsed Lexeme ts.length → Except ParseError (Parsed α n)}
    (hf : ∀ r, ts = r.value :: r.rest → Reports units ls (f r)) :
    Reports units ls (Lexeme.next expected ts >>= f) := by
  cases ts with
  | nil => exact .failure trivial
  | cons l ts => exact hf ⟨l, l.span.stop, ts, Nat.lt_succ_self _⟩ rfl

/-- A reader that goes on differently if the next lexeme is this one. -/
theorem eat {stop : Nat} {x y : Except ParseError (Parsed α n)}
    (hx : ∀ l, l.token = t → ts = l :: (Lexeme.eat t stop ts).rest → Reports units ls x)
    (hy : firstToken? ts ≠ some t → Reports units ls y) :
    Reports units ls (if (Lexeme.eat t stop ts).value then x else y) := by
  by_cases hts : firstToken? ts = some t
  · obtain ⟨l, rest, rfl, hl⟩ := Lexeme.firstToken?_eq_some_iff.1 hts
    obtain ⟨hvalue, hrest⟩ := Lexeme.eat_of_first stop rest hl
    rw [if_pos hvalue]
    exact hx l hl (by rw [hrest])
  · obtain ⟨hvalue, -⟩ := Lexeme.eat_of_not_first stop hts
    rw [hvalue, if_neg Bool.false_ne_true]
    exact hy hts

end Reports

/-- A lexeme that ends at the byte `stop` stands before `rest`, and no power follows it if it is a name. -/
def Lexeme.Stops (ts : List Lexeme) (stop : Nat) (rest : List Lexeme) : Prop :=
  ∃ used last, ts = used ++ last :: rest ∧ last.span.stop = stop ∧
    (last.token.asName?.isSome = true → firstToken? rest ≠ some .pow)

open Lexeme (Stops)

theorem Lexeme.Stops.append {ts rest : List Lexeme} {stop : Nat} (h : Stops ts stop rest) (before : List Lexeme) :
    Stops (before ++ ts) stop rest := by
  obtain ⟨used, last, rfl, hlast⟩ := h
  exact ⟨before ++ used, last, by simp, hlast⟩

/-- The lexemes of a phrase and the last one among them. -/
theorem Phrase.Precedes.exists_last {units : UnitCatalog} {ts rest : List Lexeme} {stop : Nat} {p : Phrase}
    (h : p.Precedes units ts rest) (hstops : Stops ts stop rest) :
    ∃ used last, ts = used ++ last :: rest ∧ last.span.stop = stop ∧
      Derives units ((used ++ [last]).map Lexeme.token) p ∧
      (last.token.asName?.isSome = true → firstToken? rest ≠ some .pow) := by
  obtain ⟨used, last, rfl, hstop, hpow⟩ := hstops
  obtain ⟨all, hall, hderives⟩ := h
  obtain rfl : used ++ [last] = all := by
    rw [← List.singleton_append, ← List.append_assoc] at hall
    exact List.append_cancel_right hall
  exact ⟨used, last, rfl, hstop, hderives, hpow⟩

/-- Two units that were read one after the other and cannot be combined. -/
theorem overflows_of_stops {units : UnitCatalog} {openers : List Token} {left right : UnitScheme → Phrase}
    {sign : Token} {combine? : UnitScheme → UnitScheme → Option UnitScheme} {ls whole mid after : List Lexeme}
    {l : Lexeme} {u v : UnitScheme} {stop : Nat} (h : StandsBehind openers ls whole)
    (hleft : (left u).Precedes units whole (l :: mid)) (hl : l.token = sign)
    (hright : (right v).Precedes units mid after) (hstops : Stops mid stop after)
    (hdiv : firstToken? after ≠ some .div) (hnone : combine? u v = none) :
    Overflows units openers left right sign combine? ls ⟨startOf whole, stop⟩ := by
  obtain ⟨ts, rfl, hts⟩ := hleft
  obtain ⟨ts', last, rfl, hstop, hts', hpow⟩ := hright.exists_last hstops
  have hlast : (ts ++ l :: (ts' ++ [last])).getLast? = some last := by simp [List.getLast?_cons]
  refine ⟨ts, l, ts', last, after, u, v, h, hl, hts, hts', ⟨hdiv, hpow⟩, hnone, ?_, last, hlast, hstop⟩
  cases ts with
  | nil => exact ⟨l, rfl, rfl⟩
  | cons first ts => exact ⟨first, rfl, rfl⟩

/-- The power of one atom is the exponent itself, and this fits. -/
theorem Product.raise?_single_ne_none {α : Type} [Ord α] (a : α) (p : Exponent) : (single a).raise? p ≠ none := by
  have hfits : ∀ f ∈ (single a).factors, Exponent.Fits (f.2.val * p.val) := by simp [single, p.fits_val]
  rw [raise?, if_pos hfits]
  exact Option.some_ne_none _

namespace UnitScheme

variable {units : UnitCatalog} {u : UnitScheme} {start stop n : Nat} {ls ts : List Lexeme}

section Stops

theorem stops_of_readPower {last : Lexeme} {r : Parsed UnitScheme (ts.length + 1)} (hlast : last.span.stop = stop)
    (h : readPower u stop ts = .ok r) : Stops (last :: ts) r.stop r.rest := by
  by_cases hpow : firstToken? ts = some .pow
  · obtain ⟨l, ts, rfl, hl⟩ := Lexeme.firstToken?_eq_some_iff.1 hpow
    rw [readPower, if_pos hl] at h
    obtain ⟨exponent, hexponent, h⟩ := bind_eq_ok_iff.1 h
    cases ts with
    | nil => cases hexponent
    | cons l' ts =>
        cases hexponent
        dsimp only at h
        split at h
        · rename_i p hp
          split at h
          · cases h
            exact ⟨[last, l], l', rfl, rfl, by simp [hp, Token.asName?]⟩
          · cases h
        · cases h
  · cases ts with
    | nil =>
        cases h
        exact ⟨[], last, rfl, hlast, fun _ => hpow⟩
    | cons l ts =>
        have hl : l.token ≠ .pow := by simpa using hpow
        rw [readPower, if_neg hl] at h
        cases h
        exact ⟨[], last, rfl, hlast, fun _ => hpow⟩

theorem stops_of_readSingle {r : Parsed UnitScheme ts.length} (h : readSingle units ts = .ok r) :
    Stops ts r.stop r.rest := by
  rw [readSingle.eq_def] at h
  cases ts with
  | nil => cases h
  | cons l ts =>
      dsimp only at h
      split at h
      · rename_i p hl
        split at h
        · cases h
          exact ⟨[], l, rfl, rfl, by simp [hl, Token.asName?]⟩
        · cases h
      · obtain ⟨inner, hinner, h⟩ := bind_eq_ok_iff.1 h
        obtain ⟨close, hclose, h⟩ := bind_eq_ok_iff.1 h
        cases h
        obtain ⟨used, hused, -⟩ := precedes_of_yields_read ⟨inner, hinner, rfl, rfl⟩
        obtain ⟨hrest, hc⟩ := Lexeme.yields_expect.1 ⟨close, hclose, rfl, rfl⟩
        -- Behind a closing bracket a power may follow; it is not read as a part of the unit.
        have hts : ts = used ++ close.value :: close.rest := hused.trans (congrArg (used ++ ·) hrest)
        exact ⟨l :: used, close.value, congrArg (l :: ·) hts, (Lexeme.stop_of_expect hclose).symm,
          by simp [hc, Token.asName?]⟩
      · obtain ⟨var, hvar, h⟩ := bind_eq_ok_iff.1 h
        obtain ⟨power, hpower, h⟩ := bind_eq_ok_iff.1 h
        cases h
        cases ts with
        | nil => cases hvar
        | cons l' ts =>
            rw [Lexeme.nextName] at hvar
            split at hvar
            · cases hvar
              exact (stops_of_readPower rfl hpower).append [l]
            · cases hvar
      · split at h
        · cases h
        · split at h
          · cases h
          · obtain ⟨power, hpower, h⟩ := bind_eq_ok_iff.1 h
            cases h
            exact stops_of_readPower rfl hpower

theorem precedes_of_readSingle {r : Parsed UnitScheme ts.length} (h : readSingle units ts = .ok r) :
    (Phrase.single r.value).Precedes units ts r.rest :=
  precedes_of_yields_readSingle (fun _ _ _ _ => precedes_of_yields_read) (Nat.le_refl _) ⟨r, h, rfl, rfl⟩

theorem precedes_of_readQuotient {r : Parsed UnitScheme ts.length} (h : readQuotient units ts = .ok r) :
    (Phrase.quotient r.value).Precedes units ts r.rest :=
  precedes_of_yields_readQuotient (fun _ _ _ _ => precedes_of_yields_read) (Nat.le_refl _) ⟨r, h, rfl, rfl⟩

theorem stops_of_readQuotient {r : Parsed UnitScheme ts.length} (h : readQuotient units ts = .ok r) :
    Stops ts r.stop r.rest := by
  rw [readQuotient] at h
  obtain ⟨numerator, hnumerator, h⟩ := bind_eq_ok_iff.1 h
  split at h
  · cases h
    exact stops_of_readSingle hnumerator
  · rename_i l rest hrest
    split at h
    · obtain ⟨denominator, hdenominator, h⟩ := bind_eq_ok_iff.1 h
      obtain ⟨used, hused, -⟩ := precedes_of_readSingle hnumerator
      have hts : ts = (used ++ [l]) ++ rest := by simpa [hrest] using hused
      split at h
      · cases h
      · split at h
        · cases h
        · cases h
          have hstops := (stops_of_readSingle hdenominator).append (used ++ [l])
          rwa [← hts] at hstops
    · cases h
      exact stops_of_readSingle hnumerator

theorem first_ne_div_of_readQuotient {r : Parsed UnitScheme ts.length} (h : readQuotient units ts = .ok r) :
    firstToken? r.rest ≠ some .div := by
  rcases yields_readQuotient.1 ⟨r, h, rfl, rfl⟩ with ⟨-, hdiv⟩ | ⟨_, _, _, _, -, -, -, hdiv, -⟩
  · exact hdiv
  · exact hdiv

end Stops

theorem reports_readPower {a : Atom Name} (h : ts <:+ ls) : Reports units ls (readPower (.single a) stop ts) := by
  by_cases hpow : firstToken? ts = some .pow
  · obtain ⟨l, ts, rfl, hl⟩ := Lexeme.firstToken?_eq_some_iff.1 hpow
    rw [readPower, if_pos hl]
    refine .bind_next fun exponent hts => ?_
    rw [hts] at h
    have h := Lexeme.suffix_of_cons h
    split
    · rename_i p hp
      split
      · exact .success (Lexeme.suffix_of_cons h)
      · rename_i hnone
        exact absurd hnone (Product.raise?_single_ne_none a p)
    · exact .unexpected (Lexeme.mem_of_suffix h)
  · exact .of_yields ((yields_readPower_of_first_ne hpow).2 ⟨rfl, rfl⟩) h

section Parts

-- The parts are read from shorter lists of lexemes, so what is said of the reader of units can be used there.
variable (ih : ∀ ts : List Lexeme, ts.length < n → StandsBehind [.lparen, .lbrace] ls ts →
  Reports units ls (read units ts))

include ih

theorem reports_readSingle (hn : ts.length ≤ n) (h : StandsBehind [.lparen, .lbrace, .times, .div] ls ts) :
    Reports units ls (readSingle units ts) := by
  rw [readSingle.eq_def]
  cases ts with
  | nil => exact .failure trivial
  | cons l ts =>
      dsimp only
      split
      · rename_i p hl
        split
        · exact .success (Lexeme.suffix_of_cons h.suffix)
        · rename_i hp
          exact .failure (.inl ⟨l, ts, p, h, hl, hp, rfl⟩)
      · rename_i hl
        have hinner : StandsBehind [.lparen, .lbrace] ls ts :=
          Lexeme.standsBehind_of_suffix h.suffix (by simp [hl])
        exact (ih ts hn hinner).bind fun inner _ hrest => .map (.expect hrest) fun _ => rfl
      · exact (Reports.nextName (Lexeme.suffix_of_cons h.suffix)).bind fun var _ hrest =>
          .map (reports_readPower hrest) fun _ => rfl
      · split
        · exact .unexpected (Lexeme.mem_of_suffix h.suffix)
        · split
          · exact .failure trivial
          · exact .map (reports_readPower (Lexeme.suffix_of_cons h.suffix)) fun _ => rfl

theorem reports_readQuotient (hn : ts.length ≤ n) (h : StandsBehind [.lparen, .lbrace, .times] ls ts) :
    Reports units ls (readQuotient units ts) := by
  rw [readQuotient]
  refine (reports_readSingle ih hn (h.mono (by simp))).bind fun numerator hnumerator hmid => ?_
  have hwithin := numerator.within
  split
  · exact .success hmid
  · rename_i l rest hrest
    rw [hrest] at hmid hwithin
    split
    · rename_i hl
      simp only [List.length_cons] at hwithin
      refine (reports_readSingle ih (by omega)
        (Lexeme.standsBehind_of_suffix hmid (by simp [hl]))).bind fun denominator hdenominator hafter => ?_
      split
      · rename_i text span hdiv
        obtain ⟨after, hdiv⟩ := List.head?_eq_some_iff.1 hdiv
        rw [hdiv] at hafter
        exact .failure ⟨_, Lexeme.mem_of_suffix hafter, rfl, rfl⟩
      · rename_i hdiv
        -- A second slash is looked for before the quotient is computed, so none follows here.
        split
        · rename_i hnone
          refine .failure (.inr (.inr ?_))
          have hleft := precedes_of_readSingle hnumerator
          rw [hrest] at hleft
          refine overflows_of_stops h hleft hl (precedes_of_readSingle hdenominator)
            (stops_of_readSingle hdenominator) (fun hfirst => ?_) hnone
          obtain ⟨⟨t, text, span⟩, after, hafter, ht⟩ := Lexeme.firstToken?_eq_some_iff.1 hfirst
          cases ht
          exact hdiv text span (by rw [hafter]; rfl)
        · exact .success hafter
    · exact .success (hrest ▸ hmid)

/-- The loop over further factors of a product, of which `ts` is left. -/
theorem reports_readFactors {whole : List Lexeme} (hn : ts.length ≤ n) (h : StandsBehind [.lparen, .lbrace] ls whole)
    (hu : (Phrase.unit u).Precedes units whole ts) :
    Reports units ls (readFactors units (startOf whole) u stop ts) := by
  obtain ⟨m, hm⟩ : ∃ m, ts.length = m := ⟨_, rfl⟩
  induction m using Nat.strongRecOn generalizing ts u stop with
  | _ m ihm =>
      have hts : ts <:+ ls := by
        obtain ⟨used, rfl, -⟩ := hu
        exact (List.suffix_append used ts).trans h.suffix
      by_cases htimes : firstToken? ts = some .times
      · obtain ⟨l, ts, rfl, hl⟩ := Lexeme.firstToken?_eq_some_iff.1 htimes
        rw [readFactors, if_pos hl]
        simp only [List.length_cons] at hn hm
        have hfactor : StandsBehind [.lparen, .lbrace, .times] ls ts :=
          Lexeme.standsBehind_of_suffix hts (by simp [hl])
        refine (reports_readQuotient ih (by omega) hfactor).bind fun factor hfactor hrest => ?_
        have hwithin := factor.within
        have hprecedes := precedes_of_readQuotient hfactor
        split
        · rename_i hnone
          -- The left side is the product of all factors so far, not only the last one.
          exact .failure (.inr (.inl (overflows_of_stops h hu hl hprecedes (stops_of_readQuotient hfactor)
            (first_ne_div_of_readQuotient hfactor) hnone)))
        · rename_i v hv
          have hproduct : (Phrase.unit v).Precedes units whole factor.rest := by
            obtain ⟨left, rfl, hleft⟩ := hu
            obtain ⟨right, hright, hderives⟩ := hprecedes
            exact ⟨left ++ l :: right, by simp [hright], by simpa [hl] using hleft.times hderives hv⟩
          exact .map (ihm factor.rest.length (by omega) (by omega) hproduct rfl) fun _ => rfl
      · exact .of_yields ((yields_readFactors_of_first_ne htimes).2 ⟨rfl, rfl⟩) hts

end Parts

/-- The errors of the reader of units are meaningful. -/
theorem reports_read (h : StandsBehind [.lparen, .lbrace] ls ts) : Reports units ls (read units ts) := by
  obtain ⟨m, hm⟩ : ∃ m, ts.length = m := ⟨_, rfl⟩
  induction m using Nat.strongRecOn generalizing ts with
  | _ m ihm =>
      have ih : ∀ ts : List Lexeme, ts.length < m → StandsBehind [.lparen, .lbrace] ls ts →
          Reports units ls (read units ts) := fun ts hts h => ihm _ hts h rfl
      rw [read]
      refine (reports_readQuotient ih (Nat.le_of_eq hm) (h.mono (by simp))).bind fun first hfirst _ => ?_
      have hwithin := first.within
      obtain ⟨used, hts, hused⟩ := precedes_of_readQuotient hfirst
      exact .map (reports_readFactors ih (by omega) h ⟨used, hts, hused.oneQuotient⟩) fun _ => rfl

end UnitScheme

end Tabula
