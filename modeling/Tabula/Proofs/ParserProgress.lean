import Tabula.Proofs.ParserPrograms

/-!
# The parser always advances

Each routine of `ParserPrograms`, started at any position of any list of lexemes, ends as its reader ends on what is
left there.  Along with this it is shown what the routine calls and where: each call starts at a greater position, or
at the same position and is of a lower rank.  The two go together, because a routine is known to end as its reader
does once this is known of all routines that it calls, and the calls go down in a well-founded order.

Types and units have the same rank, and so have all iterations of a loop.  So one of them inside another one starts at
a greater position.
-/

namespace Tabula

open Lexeme (firstToken? startOf)

namespace Parser

namespace Routine

/-- One for a routine that can succeed without reading anything. -/
abbrev slack : Routine → Nat
  | tagged _ | args | factors _ _ => 1
  | type | function | params | record | fields _ | unit | quotient | single => 0

/-- A routine that calls another one before it has read anything has a higher rank. -/
def rank : Routine → Nat
  | single => 0
  | quotient => 1
  | type | unit => 2
  | params | fields _ => 3
  | function | record => 4
  | args | factors _ _ => 0
  | tagged _ => 1

/-- The reader that a routine stands for.  Some of them are told where the last lexeme before `ts` ends. -/
def read (units : UnitCatalog) (stop : Nat) :
    (r : Routine) → (ts : List Lexeme) → Except ParseError (Parsed r.Value (ts.length + r.slack))
  | type, ts => Scheme.read units ts
  | function, ts => Scheme.readFunction units ts
  | params, ts => Scheme.readParams units ts
  | record, ts => Scheme.readRecord units ts
  | fields fs, ts => Scheme.readFields units fs ts
  | tagged name, ts => do return (← Scheme.readArgs units stop ts).map (Scheme.tagged name)
  | args, ts => Scheme.readArgs units stop ts
  | unit, ts => UnitScheme.read units ts
  | factors start u, ts => UnitScheme.readFactors units start u stop ts
  | quotient, ts => UnitScheme.readQuotient units ts
  | single, ts => UnitScheme.readSingle units ts

end Routine

section Order

variable (ts : List Lexeme)

/-- The second call starts at a greater position in the list, or at the same position and is of a lower rank. -/
def Precedes (x y : Routine × Nat) : Prop :=
  (x.2 < y.2 ∧ y.2 ≤ ts.length) ∨ (x.2 = y.2 ∧ y.1.rank < x.1.rank)

variable {ts} in
theorem Precedes.of_rank {r r' : Routine} {pos : Nat} (h : r'.rank < r.rank) : Precedes ts (r, pos) (r', pos) :=
  .inr ⟨rfl, h⟩

theorem wellFounded_precedes : WellFounded fun y x => Precedes ts x y := by
  have hwf := InvImage.wf (fun x : Routine × Nat => (ts.length - x.2, x.1.rank))
    (Prod.lex Nat.lt_wfRel Nat.lt_wfRel).wf
  refine Subrelation.wf (fun {y x} h => ?_) hwf
  rcases h with ⟨hlt, hle⟩ | ⟨heq, hrank⟩
  · exact Prod.Lex.left _ _ (by show ts.length - y.2 < ts.length - x.2; omega)
  · show Prod.Lex _ _ (ts.length - y.2, y.1.rank) (ts.length - x.2, x.1.rank)
    rw [heq]
    exact Prod.Lex.right _ hrank

end Order

/-- What does not begin with the token is left as it is. -/
theorem rest_of_eat {t : Token} {stop : Nat} {ts : List Lexeme} (h : ¬ (Lexeme.eat t stop ts).value = true) :
    (Lexeme.eat t stop ts).rest = ts := by
  by_cases hfirst : firstToken? ts = some t
  · obtain ⟨l, rest, rfl, hl⟩ := Lexeme.firstToken?_eq_some_iff.1 hfirst
    exact absurd (Lexeme.eat_of_first stop rest hl).1 h
  · exact (Lexeme.eat_of_not_first stop hfirst).2

section Positions

variable {ts rest : List Lexeme} {l : Lexeme} {pos : Nat}

theorem getElem?_of_drop_cons (h : ts.drop pos = l :: rest) : ts[pos]? = some l := by
  rw [← List.head?_drop, h, List.head?_cons]

theorem lt_length_of_drop_cons (h : ts.drop pos = l :: rest) : pos < ts.length :=
  (List.getElem?_eq_some_iff.1 (getElem?_of_drop_cons h)).1

theorem drop_succ_of_drop_cons (h : ts.drop pos = l :: rest) : ts.drop (pos + 1) = rest := by
  rw [← List.drop_drop, h, List.drop_one, List.tail_cons]

theorem getElem?_of_drop_nil (h : ts.drop pos = []) : ts[pos]? = none := by
  rw [← List.head?_drop, h, List.head?_nil]

theorem map_token_getElem? : ts[pos]?.map Lexeme.token = firstToken? (ts.drop pos) := by
  rw [← List.head?_drop]
  cases ts.drop pos with
  | nil => rfl
  | cons l rest => rfl

end Positions

/-- A routine that was started at `start` is now at `pos`, where `rest` is left. -/
structure At (ts : List Lexeme) (start pos : Nat) (rest : List Lexeme) : Prop where
  drop : ts.drop pos = rest
  le : start ≤ pos
  bound : pos ≤ max start ts.length

namespace At

variable {ts rest : List Lexeme} {start pos : Nat}

theorem refl (ts : List Lexeme) (start : Nat) : At ts start start (ts.drop start) :=
  ⟨rfl, Nat.le_refl _, Nat.le_max_left _ _⟩

theorem step {l : Lexeme} (h : At ts start pos (l :: rest)) : At ts start (pos + 1) rest := by
  have hlt := lt_length_of_drop_cons h.drop
  exact ⟨drop_succ_of_drop_cons h.drop, Nat.le_succ_of_le h.le, by omega⟩

theorem length_eq (h : At ts start pos rest) : rest.length = ts.length - pos := by
  rw [← h.drop, List.length_drop]

/-- A call after something has been read. -/
theorem precedes {r r' : Routine} (h : At ts start pos rest) (hlt : rest.length < ts.length - start) :
    Precedes ts (r, start) (r', pos) := by
  have hle := h.le
  have hbound := h.bound
  have hlength := h.length_eq
  exact .inl ⟨by show start < pos; omega, by show pos ≤ ts.length; omega⟩

end At

section Mirrors

variable (units : UnitCatalog) (size : Nat) (ts : List Lexeme)

/-- The program runs safely and ends as the reader does: with the same error, or with the same value and in front of the
lexemes that the reader leaves. -/
structure Mirrors (allowed : Routine × Nat → Prop) {α : Type} {n : Nat} (p : Program α) (pos : Nat)
    (x : Except ParseError (Parsed α n)) : Prop where
  error : ∀ e, x = .error e → RunsSafely units size ts allowed p pos (.error e)
  ok : ∀ r, x = .ok r →
    ∃ pos', RunsSafely units size ts allowed p pos (.value r.value pos') ∧ ts.drop pos' = r.rest

/-- The routine mirrors its reader, and what it calls starts at a greater position or has a lower rank. -/
def Faithful (x : Routine × Nat) : Prop :=
  ∀ stop, Mirrors units size ts (Precedes ts x) (body units size x.1) x.2 (x.1.read units stop (ts.drop x.2))

end Mirrors

namespace Mirrors

variable {units : UnitCatalog} {size : Nat} {ts rest : List Lexeme} {allowed : Routine × Nat → Prop} {α β : Type}
  {m n start pos : Nat} {l : Lexeme} {t : Token}

theorem success {a : α} {r : Parsed α n} (hat : At ts start pos r.rest) (hvalue : r.value = a) :
    Mirrors units size ts allowed (.done a) pos (.ok r) := by
  constructor
  · rintro _ ⟨⟩
  · rintro _ ⟨⟩
    exact ⟨pos, hvalue ▸ .done, hat.drop⟩

theorem of_yields {v : α} {x : Except ParseError (Parsed α n)} (hx : Parsed.Yields x v rest)
    (hat : At ts start pos rest) : Mirrors units size ts allowed (.done v) pos x := by
  obtain ⟨r, rfl, hvalue, rfl⟩ := hx
  exact .success hat hvalue

theorem failure {e : ParseError} :
    Mirrors units size ts allowed (.fail e : Program α) pos (.error e : Except ParseError (Parsed α n)) := by
  constructor
  · rintro _ ⟨⟩
    exact .fail
  · rintro _ ⟨⟩

theorem peek {k : Option Lexeme → Program α} {x : Except ParseError (Parsed α n)}
    (h : Mirrors units size ts allowed (k (ts[pos]?)) pos x) : Mirrors units size ts allowed (.peek k) pos x := by
  constructor
  · exact fun e he => .peek (h.error e he)
  · intro r hr
    obtain ⟨pos', hrun, hrest⟩ := h.ok r hr
    exact ⟨pos', .peek hrun, hrest⟩

theorem advance {k : Program α} {x : Except ParseError (Parsed α n)} (hpos : pos < ts.length)
    (h : Mirrors units size ts allowed k (pos + 1) x) : Mirrors units size ts allowed (.advance k) pos x := by
  constructor
  · exact fun e he => .advance hpos (h.error e he)
  · intro r hr
    obtain ⟨pos', hrun, hrest⟩ := h.ok r hr
    exact ⟨pos', .advance hpos hrun, hrest⟩

theorem bind {p : Program α} {f : α → Program β} {x : Except ParseError (Parsed α m)}
    {g : Parsed α m → Except ParseError (Parsed β n)} (hat : At ts start pos rest)
    (hp : Mirrors units size ts allowed p pos x)
    (hf : ∀ r pos', x = .ok r → At ts start pos' r.rest → Mirrors units size ts allowed (f r.value) pos' (g r)) :
    Mirrors units size ts allowed (p >>= f) pos (x >>= g) := by
  cases x with
  | error e =>
      constructor
      · rintro _ ⟨⟩
        exact (hp.error e rfl).bind_error
      · rintro _ ⟨⟩
  | ok r =>
      obtain ⟨pos', hrun, hrest⟩ := hp.ok r rfl
      obtain ⟨hle, hbound⟩ := hrun.position_le
      have hstart := hat.bound
      have hmirrors := hf r pos' rfl ⟨hrest, Nat.le_trans hat.le hle, by omega⟩
      constructor
      · exact fun e he => hrun.bind (hmirrors.error e he)
      · intro r' hr'
        obtain ⟨pos'', hrun', hrest'⟩ := hmirrors.ok r' hr'
        exact ⟨pos'', hrun.bind hrun', hrest'⟩

/-- The last step of a reader, where the value is put together. -/
theorem map {p : Program α} {f : α → β} {x : Except ParseError (Parsed α m)} {g : Parsed α m → Parsed β n}
    (hat : At ts start pos rest) (hp : Mirrors units size ts allowed p pos x) (hvalue : ∀ r, (g r).value = f r.value)
    (hrest : ∀ r, (g r).rest = r.rest) :
    Mirrors units size ts allowed (p >>= fun a => .done (f a)) pos (x >>= fun r => pure (g r)) :=
  .bind hat hp fun r _ _ hat' => .success ((hrest r).symm ▸ hat') (hvalue r)

/-- A reader that changes nothing in the end. -/
theorem widen {p : Program α} {x : Except ParseError (Parsed α m)} {g : Parsed α m → Parsed α n}
    (hp : Mirrors units size ts allowed p pos x) (hvalue : ∀ r, (g r).value = r.value)
    (hrest : ∀ r, (g r).rest = r.rest) : Mirrors units size ts allowed p pos (x >>= fun r => pure (g r)) := by
  cases x with
  | error e =>
      constructor
      · rintro _ ⟨⟩
        exact hp.error e rfl
      · rintro _ ⟨⟩
  | ok r =>
      obtain ⟨pos', hrun, hdrop⟩ := hp.ok r rfl
      constructor
      · rintro _ ⟨⟩
      · rintro _ ⟨⟩
        exact ⟨pos', (hvalue r).symm ▸ hrun, (hrest r).symm ▸ hdrop⟩

theorem next {expected : Expected} (hat : At ts start pos rest) :
    Mirrors units size ts allowed (.next expected) pos (Lexeme.next expected rest) := by
  refine .peek ?_
  cases rest with
  | nil =>
      rw [getElem?_of_drop_nil hat.drop]
      exact .failure
  | cons l rest =>
      rw [getElem?_of_drop_cons hat.drop]
      exact .advance (lt_length_of_drop_cons hat.drop) (.success hat.step rfl)

/-- A program that looks at the next lexeme whatever it is. -/
theorem next_bind {expected : Expected} {f : Lexeme → Program α} {x : Except ParseError (Parsed α n)}
    (hat : At ts start pos rest) (hnil : rest = [] → x = .error (.unexpectedEnd expected))
    (hcons : ∀ l rest', rest = l :: rest' → At ts start (pos + 1) rest' →
      Mirrors units size ts allowed (f l) (pos + 1) x) :
    Mirrors units size ts allowed (.next expected >>= f) pos x := by
  refine .peek ?_
  cases rest with
  | nil =>
      rw [getElem?_of_drop_nil hat.drop, hnil rfl]
      exact .failure
  | cons l rest =>
      rw [getElem?_of_drop_cons hat.drop]
      exact .advance (lt_length_of_drop_cons hat.drop) (hcons l rest rfl hat.step)

theorem expect (hat : At ts start pos rest) :
    Mirrors units size ts allowed (.expect t) pos (Lexeme.expect t rest) := by
  refine .next_bind hat (fun hnil => ?_) fun l rest' hcons hat' => ?_
  · subst hnil
    rfl
  · subst hcons
    rw [Lexeme.expect]
    split
    · exact .success hat' rfl
    · exact .failure

theorem name {expected : Expected} (hat : At ts start pos rest) :
    Mirrors units size ts allowed (.name expected) pos (Lexeme.nextName expected rest) := by
  refine .next_bind hat (fun hnil => ?_) fun l rest' hcons hat' => ?_
  · subst hnil
    rfl
  · subst hcons
    rw [Lexeme.nextName]
    cases l.token.asName? with
    | some n => exact .success hat' rfl
    | none => exact .failure

/-- A program that goes on differently if the next lexeme is this one. -/
theorem eat {f : Bool → Program α} {x : Except ParseError (Parsed α n)} (hat : At ts start pos rest)
    (hx : ∀ l rest', rest = l :: rest' → l.token = t → At ts start (pos + 1) rest' →
      Mirrors units size ts allowed (f true) (pos + 1) x)
    (hy : firstToken? rest ≠ some t → Mirrors units size ts allowed (f false) pos x) :
    Mirrors units size ts allowed (.eat t >>= f) pos x := by
  refine .peek ?_
  beta_reduce
  rw [map_token_getElem?, hat.drop]
  by_cases hfirst : firstToken? rest = some t
  · rw [if_pos hfirst]
    obtain ⟨l, rest', rfl, hl⟩ := Lexeme.firstToken?_eq_some_iff.1 hfirst
    exact .advance (lt_length_of_drop_cons hat.drop) (hx l rest' rfl hl hat.step)
  · rw [if_neg hfirst]
    exact hy hfirst

/-- The same where the reader does it in one step. -/
theorem eat_bind {f : Bool → Program α} {x : Except ParseError (Parsed α n)} (hat : At ts start pos rest) (stop : Nat)
    (h : ∀ pos', At ts start pos' (Lexeme.eat t stop rest).rest →
      Mirrors units size ts allowed (f (Lexeme.eat t stop rest).value) pos' x) :
    Mirrors units size ts allowed (.eat t >>= f) pos x := by
  refine .eat hat (fun l rest' hrest hl hat' => ?_) fun hfirst => ?_
  · subst hrest
    obtain ⟨hvalue, hrest⟩ := Lexeme.eat_of_first stop rest' hl
    have hnext := h (pos + 1) (hrest.symm ▸ hat')
    rwa [hvalue] at hnext
  · obtain ⟨hvalue, hrest⟩ := Lexeme.eat_of_not_first stop hfirst
    have hnext := h pos (hrest.symm ▸ hat)
    rwa [hvalue] at hnext

theorem run {r : Routine} (hat : At ts start pos rest) (hallowed : allowed (r, pos))
    (h : Faithful units size ts (r, pos)) (stop : Nat) :
    Mirrors units size ts allowed (.run r) pos (r.read units stop rest) := by
  obtain rfl := hat.drop
  have hmirrors : Mirrors units size ts _ (body units size r) pos (r.read units stop (ts.drop pos)) := h stop
  constructor
  · exact fun e he => .callError hallowed (hmirrors.error e he).runs
  · intro res hres
    obtain ⟨pos', hrun, hdrop⟩ := hmirrors.ok res hres
    exact ⟨pos', .call hallowed hrun.runs hrun.position_le .done, hdrop⟩

end Mirrors

section Routines

variable {units : UnitCatalog} {size : Nat} {ts rest : List Lexeme} {r : Routine} {start pos : Nat}

theorem Mirrors.power {allowed : Routine × Nat → Prop} (hat : At ts start pos rest) (u : UnitScheme) (stop : Nat) :
    Mirrors units size ts allowed (.power u) pos (UnitScheme.readPower u stop rest) := by
  refine .eat hat (fun l rest' hrest hl hat' => ?_) fun hfirst => ?_
  · subst hrest
    rw [UnitScheme.readPower, if_pos hl]
    refine .bind hat' (.next hat') fun exponent pos' _ hat'' => ?_
    cases exponent.value.token with
    | int p =>
        dsimp only
        cases u.raise? p with
        | some v => exact .success hat'' rfl
        | none => exact .failure
    | _ => exact .failure
  · exact .of_yields ((UnitScheme.yields_readPower_of_first_ne hfirst).2 ⟨rfl, rfl⟩) hat

theorem offset_of_cons {l : Lexeme} (hat : At ts start pos (l :: rest)) (size : Nat) :
    (ts[pos]?.elim size fun l => l.span.start) = startOf (l :: rest) := by
  rw [getElem?_of_drop_cons hat.drop]
  rfl

/-- The lexeme before a position that was reached by reading is there, and it is the last one that was read. -/
theorem At.getElem?_pred {mid stop : Nat} {rest' : List Lexeme} (hat : At ts start pos rest)
    (hmid : At ts start mid rest') (hstops : Lexeme.Stops rest stop rest') :
    mid ≠ 0 ∧ ∃ last, ts[mid - 1]? = some last ∧ last.span.stop = stop := by
  obtain ⟨used, last, hused, hstop, -⟩ := hstops
  have hrest := hat.length_eq
  have hrest' := hmid.length_eq
  have hbound := hmid.bound
  have hle := hat.le
  rw [hused, List.length_append, List.length_cons] at hrest
  have hmid : mid - 1 = pos + used.length := by omega
  refine ⟨by omega, last, ?_, hstop⟩
  rw [hmid, ← List.getElem?_drop, hat.drop, hused, List.getElem?_append_right (Nat.le_refl _), Nat.sub_self,
    List.getElem?_cons_zero]

/-- A product or quotient that is too large is reported up to the last lexeme that was read. -/
theorem Mirrors.tooLarge {allowed : Routine × Nat → Prop} {α : Type} {n mid stop : Nat} {rest' : List Lexeme}
    (hat : At ts start pos rest) (hmid : At ts start mid rest') (hstops : Lexeme.Stops rest stop rest') (first : Nat) :
    Mirrors units size ts allowed (.spanFrom first >>= fun span => .fail (.invalidExponent span) : Program α) mid
      (.error (.invalidExponent ⟨first, stop⟩) : Except ParseError (Parsed α n)) := by
  obtain ⟨hne, last, hlast, rfl⟩ := hat.getElem?_pred hmid hstops
  constructor
  · rintro _ ⟨⟩
    refine .position ?_
    beta_reduce
    rw [if_neg hne]
    exact .index hlast .fail
  · rintro _ ⟨⟩

/-- A second slash is reported where it stands. -/
theorem Mirrors.refuseDiv {allowed : Routine × Nat → Prop} {α : Type} {n : Nat} {f : Unit → Program α}
    {x : Except ParseError (Parsed α n)} (hat : At ts start pos rest)
    (hdiv : ∀ l rest', rest = l :: rest' → l.token = .div → x = .error (.chainedDivision l.span))
    (hother : firstToken? rest ≠ some .div → Mirrors units size ts allowed (f ()) pos x) :
    Mirrors units size ts allowed (.refuseDiv >>= f) pos x := by
  refine .peek ?_
  beta_reduce
  rw [map_token_getElem?, hat.drop]
  by_cases hfirst : firstToken? rest = some .div
  · rw [if_pos hfirst]
    obtain ⟨l, rest', rfl, hl⟩ := Lexeme.firstToken?_eq_some_iff.1 hfirst
    rw [hdiv l rest' rfl hl]
    constructor
    · rintro _ ⟨⟩
      exact .position (.index (getElem?_of_drop_cons hat.drop) .fail)
    · rintro _ ⟨⟩
  · rw [if_neg hfirst]
    exact hother hfirst

section Calls

-- What a routine calls is known to be faithful, as it starts at a greater position or has a lower rank.
variable (ih : ∀ y, Precedes ts (r, start) y → Faithful units size ts y)

include ih

/-- A call before anything has been read. -/
theorem Mirrors.run_first (r' : Routine) (hat : At ts start start rest) (hrank : r'.rank < r.rank) (stop : Nat) :
    Mirrors units size ts (Precedes ts (r, start)) (.run r') start (r'.read units stop rest) :=
  .run hat (.of_rank hrank) (ih _ (.of_rank hrank)) stop

/-- A call after something has been read. -/
theorem Mirrors.run_later (r' : Routine) (hat : At ts start pos rest) (hlt : rest.length < ts.length - start)
    (stop : Nat) : Mirrors units size ts (Precedes ts (r, start)) (.run r') pos (r'.read units stop rest) :=
  .run hat (hat.precedes hlt) (ih _ (hat.precedes hlt)) stop

theorem Mirrors.number (hat : At ts start pos rest) (hlt : rest.length < ts.length - start) (stop : Nat) :
    Mirrors units size ts (Precedes ts (r, start)) .number pos (Scheme.readNumber units stop rest) := by
  unfold Scheme.readNumber
  dsimp only
  refine .eat_bind hat stop fun mid hmid => ?_
  have hwithin := (Lexeme.eat .lbrace stop rest).within
  split
  · refine .bind hmid (.run_later ih .unit hmid (by omega) 0) fun u after _ hafter => ?_
    exact .map hafter (.expect hafter) (fun _ => rfl) fun _ => rfl
  · exact .success hmid rfl

theorem Mirrors.arg (hat : At ts start pos rest) (hlt : rest.length < ts.length - start) :
    Mirrors units size ts (Precedes ts (r, start)) .arg pos (Scheme.readArg units rest) := by
  rw [Scheme.readArg]
  refine .eat_bind hat 0 fun mid hmid => ?_
  have hwithin := (Lexeme.eat .lbrace 0 rest).within
  split
  · refine .bind hmid (.run_later ih .unit hmid (by omega) 0) fun u after _ hafter => ?_
    exact .map hafter (.expect hafter) (fun _ => rfl) fun _ => rfl
  · rename_i hvalue
    rw [rest_of_eat hvalue] at hmid
    exact .map hmid (.run_later ih .type hmid hlt 0) (fun _ => rfl) fun _ => rfl

theorem Mirrors.field (hat : At ts start pos rest) (hle : rest.length ≤ ts.length - start) :
    Mirrors units size ts (Precedes ts (r, start)) .field pos (Scheme.readField units rest) := by
  rw [Scheme.readField]
  refine .bind hat (.name hat) fun name mid _ hmid => ?_
  have hname := name.within
  refine .eat_bind hmid name.stop fun mid' hmid' => ?_
  have hquestion := (Lexeme.eat .question name.stop name.rest).within
  refine .bind hmid' (.expect hmid') fun colon after _ hafter => ?_
  have hcolon := colon.within
  exact .map hafter (.run_later ih .type hafter (by omega) 0) (fun _ => rfl) fun _ => rfl

theorem Mirrors.paramList (hat : At ts start start rest) (hrank : Routine.params.rank < r.rank) :
    Mirrors units size ts (Precedes ts (r, start)) .paramList start (Scheme.readParamList units rest) := by
  rw [Scheme.readParamList.eq_def]
  refine .eat hat (fun l rest' hrest hl hat' => ?_) fun hfirst => ?_
  · subst hrest
    simp only [hl, if_true]
    exact .success hat' rfl
  · cases rest with
    | nil => exact .run_first ih .params hat hrank 0
    | cons l rest =>
        have hl : l.token ≠ .rparen := by simpa using hfirst
        simp only [hl, if_false]
        exact .run_first ih .params hat hrank 0

end Calls

section Bodies

theorem mirrors_type (ih : ∀ y, Precedes ts (.type, start) y → Faithful units size ts y)
    (hat : At ts start start rest) :
    Mirrors units size ts (Precedes ts (.type, start)) (body units size .type) start (Scheme.read units rest) := by
  have hlength := hat.length_eq
  rw [Scheme.read.eq_def]
  refine .next_bind hat (fun hnil => ?_) fun l rest' hcons hat' => ?_
  · subst hnil
    rfl
  · subst hcons
    rw [List.length_cons] at hlength
    dsimp only
    cases l.token with
    | keyword k =>
        dsimp only
        cases Scheme.primitive? k with
        | some p => exact .success hat' rfl
        | none => exact .widen (.number ih hat' (by omega) _) (fun _ => rfl) fun _ => rfl
    | lbracket =>
        refine .bind hat' (.run_later ih .type hat' (by omega) 0) fun element after _ hafter => ?_
        exact .map hafter (.expect hafter) (fun _ => rfl) fun _ => rfl
    | lparen =>
        refine .eat_bind hat' l.span.stop fun mid hmid => ?_
        have hwithin := (Lexeme.eat .lparen l.span.stop rest').within
        split
        · exact .widen (.run_later ih .function hmid (by omega) 0) (fun _ => rfl) fun _ => rfl
        · rename_i hvalue
          rw [rest_of_eat hvalue] at hmid
          exact .widen (.run_later ih .record hmid (by omega) 0) (fun _ => rfl) fun _ => rfl
    | name n =>
        -- The routine puts the name in front of the arguments, the reader of types does it after reading them.
        have htagged := Mirrors.run_later ih (.tagged n) hat' (by omega) l.span.stop
        have hread := htagged.widen (g := fun r => r.widen (Nat.le_refl _)) (fun _ => rfl) fun _ => rfl
        simp only [Routine.read, bind_assoc, pure_bind] at hread
        exact hread
    | _ => exact .failure

theorem mirrors_function (ih : ∀ y, Precedes ts (.function, start) y → Faithful units size ts y)
    (hat : At ts start start rest) :
    Mirrors units size ts (Precedes ts (.function, start)) (body units size .function) start
      (Scheme.readFunction units rest) := by
  have hlength := hat.length_eq
  rw [Scheme.readFunction]
  refine .bind hat (.paramList ih hat (by decide)) fun params mid _ hmid => ?_
  have hparams := params.within
  refine .bind hmid (.expect hmid) fun arrow mid' _ hmid' => ?_
  have harrow := arrow.within
  refine .bind hmid' (.run_later ih .type hmid' (by omega) 0) fun result after _ hafter => ?_
  exact .map hafter (.expect hafter) (fun _ => rfl) fun _ => rfl

theorem mirrors_params (ih : ∀ y, Precedes ts (.params, start) y → Faithful units size ts y)
    (hat : At ts start start rest) :
    Mirrors units size ts (Precedes ts (.params, start)) (body units size .params) start
      (Scheme.readParams units rest) := by
  have hlength := hat.length_eq
  rw [Scheme.readParams]
  refine .bind hat (.run_first ih .type hat (by decide) 0) fun first mid _ hmid => ?_
  have hfirst := first.within
  refine .bind hmid (.next hmid) fun mark after _ hafter => ?_
  have hmark := mark.within
  cases mark.value.token with
  | comma => exact .map hafter (.run_later ih .params hafter (by omega) 0) (fun _ => rfl) fun _ => rfl
  | rparen => exact .success hafter rfl
  | _ => exact .failure

theorem mirrors_record (ih : ∀ y, Precedes ts (.record, start) y → Faithful units size ts y)
    (hat : At ts start start rest) :
    Mirrors units size ts (Precedes ts (.record, start)) (body units size .record) start
      (Scheme.readRecord units rest) := by
  rw [Scheme.readRecord.eq_def]
  refine .eat hat (fun l rest' hrest hl hat' => ?_) fun hfirst => ?_
  · subst hrest
    simp only [hl, if_true]
    exact .success hat' rfl
  · cases rest with
    | nil => exact .run_first ih (.fields []) hat (by decide) 0
    | cons l rest =>
        have hl : l.token ≠ .rparen := by simpa using hfirst
        simp only [hl, if_false]
        exact .run_first ih (.fields []) hat (by decide) 0

theorem mirrors_fields {fields : List (Field Scheme)}
    (ih : ∀ y, Precedes ts (.fields fields, start) y → Faithful units size ts y) (hat : At ts start start rest) :
    Mirrors units size ts (Precedes ts (.fields fields, start)) (body units size (.fields fields)) start
      (Scheme.readFields units fields rest) := by
  have hlength := hat.length_eq
  rw [Scheme.readFields]
  refine .eat_bind hat 0 fun mid hmid => ?_
  split
  · exact .map hmid (.expect hmid) (fun _ => rfl) fun _ => rfl
  · rename_i hvalue
    rw [rest_of_eat hvalue] at hmid
    refine .bind hmid (.field ih hmid (by omega)) fun field after _ hafter => ?_
    have hfield := field.within
    split
    · exact .failure
    · refine .bind hafter (.next hafter) fun mark last _ hlast => ?_
      have hmark := mark.within
      cases mark.value.token with
      | comma => exact .widen (.run_later ih (.fields _) hlast (by omega) 0) (fun _ => rfl) fun _ => rfl
      | rparen => exact .success hlast rfl
      | _ => exact .failure

theorem mirrors_args (ih : ∀ y, Precedes ts (.args, start) y → Faithful units size ts y)
    (hat : At ts start start rest) (stop : Nat) :
    Mirrors units size ts (Precedes ts (.args, start)) (body units size .args) start
      (Scheme.readArgs units stop rest) := by
  have hlength := hat.length_eq
  refine .eat hat (fun l rest' hrest hl hat' => ?_) fun hfirst => ?_
  · subst hrest
    rw [List.length_cons] at hlength
    rw [Scheme.readArgs, if_pos hl]
    refine .bind hat' (.arg ih hat' (by omega)) fun arg mid _ hmid => ?_
    have harg := arg.within
    refine .bind hmid (.expect hmid) fun close after _ hafter => ?_
    have hclose := close.within
    exact .map hafter (.run_later ih .args hafter (by omega) close.stop) (fun _ => rfl) fun _ => rfl
  · exact .of_yields ((Scheme.yields_readArgs_of_first_ne hfirst).2 ⟨rfl, rfl⟩) hat

theorem mirrors_tagged {n : Name} (ih : ∀ y, Precedes ts (.tagged n, start) y → Faithful units size ts y)
    (hat : At ts start start rest) (stop : Nat) :
    Mirrors units size ts (Precedes ts (.tagged n, start)) (body units size (.tagged n)) start
      ((Routine.tagged n).read units stop rest) :=
  .map hat (.run_first ih .args hat Nat.one_pos stop) (fun _ => rfl) fun _ => rfl

theorem mirrors_unit (ih : ∀ y, Precedes ts (.unit, start) y → Faithful units size ts y)
    (hat : At ts start start rest) :
    Mirrors units size ts (Precedes ts (.unit, start)) (body units size .unit) start (UnitScheme.read units rest) := by
  have hlength := hat.length_eq
  rw [UnitScheme.read]
  refine .peek (.bind hat (.run_first ih .quotient hat (by decide) 0) fun first mid _ hmid => ?_)
  have hwithin : first.rest.length < rest.length := first.within
  cases rest with
  | nil => cases hwithin
  | cons l rest =>
      -- At the end of the text the two do not agree on where the unit starts, but there is no unit.
      rw [offset_of_cons hat]
      exact .widen (.run_later ih (.factors _ _) hmid (by omega) first.stop) (fun _ => rfl) fun _ => rfl

theorem mirrors_factors {first : Nat} {u : UnitScheme}
    (ih : ∀ y, Precedes ts (.factors first u, start) y → Faithful units size ts y) (hat : At ts start start rest)
    (stop : Nat) :
    Mirrors units size ts (Precedes ts (.factors first u, start)) (body units size (.factors first u)) start
      (UnitScheme.readFactors units first u stop rest) := by
  have hlength := hat.length_eq
  refine .eat hat (fun l rest' hrest hl hat' => ?_) fun hfirst => ?_
  · subst hrest
    rw [List.length_cons] at hlength
    rw [UnitScheme.readFactors, if_pos hl]
    refine .bind hat' (.run_later ih .quotient hat' (by omega) 0) fun factor mid hfactor hmid => ?_
    have hwithin := factor.within
    cases u.times? factor.value with
    | none => exact .tooLarge hat' hmid (UnitScheme.stops_of_readQuotient hfactor) first
    | some w => exact .widen (.run_later ih (.factors first w) hmid (by omega) factor.stop) (fun _ => rfl) fun _ => rfl
  · exact .of_yields ((UnitScheme.yields_readFactors_of_first_ne hfirst).2 ⟨rfl, rfl⟩) hat

theorem mirrors_quotient (ih : ∀ y, Precedes ts (.quotient, start) y → Faithful units size ts y)
    (hat : At ts start start rest) :
    Mirrors units size ts (Precedes ts (.quotient, start)) (body units size .quotient) start
      (UnitScheme.readQuotient units rest) := by
  have hlength := hat.length_eq
  rw [UnitScheme.readQuotient]
  refine .peek (.bind hat (.run_first ih .single hat (by decide) 0) fun numerator mid _ hmid => ?_)
  have hnumerator : numerator.rest.length < rest.length := numerator.within
  -- The program looks for a slash at the position, the reader in what the numerator has left.
  split
  · rename_i hrest
    refine .eat hmid (fun l rest' hcons => ?_) fun _ => .success hmid rfl
    rw [hrest] at hcons
    cases hcons
  · rename_i l rest' hrest
    have hlater : rest'.length < ts.length - start := by
      rw [hrest, List.length_cons] at hnumerator
      omega
    refine .eat hmid (fun l' rest'' hcons hl hat' => ?_) fun hfirst => ?_
    · rw [hrest] at hcons
      cases hcons
      rw [if_pos hl]
      refine .bind hat' (.run_later ih .single hat' hlater 0) fun denominator after hdenominator hafter => ?_
      refine .refuseDiv hafter (fun l' after' hcons hl' => ?_) fun hdiv => ?_
      · obtain ⟨t, text, span⟩ := l'
        cases hl'
        simp only [hcons, List.head?_cons]
        rfl
      · have hhead : ∀ text span, denominator.rest.head? ≠ some ⟨.div, text, span⟩ := by
          intro text span hhead
          exact hdiv (by rw [firstToken?, hhead]; rfl)
        have hoffset : (ts[start]?.elim size fun l => l.span.start) = startOf rest := by
          cases rest with
          | nil => cases hnumerator
          | cons first rest => exact offset_of_cons hat size
        cases numerator.value.divideByInverse? denominator.value with
        | some w =>
            dsimp only
            split
            · exact absurd ‹_› (hhead _ _)
            · exact .success hafter rfl
        | none =>
            dsimp only
            rw [hoffset]
            split
            · exact absurd ‹_› (hhead _ _)
            · exact .tooLarge hat' hafter (UnitScheme.stops_of_readSingle hdenominator) (startOf rest)
    · have hl : l.token ≠ .div := by simpa [hrest] using hfirst
      rw [if_neg hl]
      exact .success hmid rfl

theorem mirrors_single (ih : ∀ y, Precedes ts (.single, start) y → Faithful units size ts y)
    (hat : At ts start start rest) :
    Mirrors units size ts (Precedes ts (.single, start)) (body units size .single) start
      (UnitScheme.readSingle units rest) := by
  have hlength := hat.length_eq
  rw [UnitScheme.readSingle.eq_def]
  refine .next_bind hat (fun hnil => ?_) fun l rest' hcons hat' => ?_
  · subst hnil
    rfl
  · subst hcons
    rw [List.length_cons] at hlength
    dsimp only
    cases l.token with
    | int p =>
        dsimp only
        split
        · exact .success hat' rfl
        · exact .failure
    | lparen =>
        refine .bind hat' (.run_later ih .unit hat' (by omega) 0) fun inner after _ hafter => ?_
        exact .map hafter (.expect hafter) (fun _ => rfl) fun _ => rfl
    | unitVar =>
        refine .bind hat' (.name hat') fun name after _ hafter => ?_
        exact .widen (.power hafter _ _) (fun _ => rfl) fun _ => rfl
    | name n =>
        dsimp only [Token.asName?]
        cases units.get n with
        | error e => exact .failure
        | ok u => exact .widen (.power hat' _ _) (fun _ => rfl) fun _ => rfl
    | keyword k =>
        dsimp only [Token.asName?]
        cases units.get k.asName with
        | error e => exact .failure
        | ok u => exact .widen (.power hat' _ _) (fun _ => rfl) fun _ => rfl
    | _ => exact .failure

end Bodies

end Routines

section Progress

variable {units : UnitCatalog} {size : Nat} {ts : List Lexeme} {r : Routine} {pos : Nat} {x y z : Routine × Nat}

theorem faithful (units : UnitCatalog) (size : Nat) (ts : List Lexeme) (x : Routine × Nat) :
    Faithful units size ts x := by
  -- Every call of a routine comes after it in the order, and this is all that is used about calls.
  induction x using (wellFounded_precedes ts).induction with
  | _ x ih =>
      obtain ⟨r, start⟩ := x
      have hat := At.refl ts start
      intro stop
      cases r with
      | type => exact mirrors_type ih hat
      | function => exact mirrors_function ih hat
      | params => exact mirrors_params ih hat
      | record => exact mirrors_record ih hat
      | fields fields => exact mirrors_fields ih hat
      | tagged name => exact mirrors_tagged ih hat stop
      | args => exact mirrors_args ih hat stop
      | unit => exact mirrors_unit ih hat
      | factors first u => exact mirrors_factors ih hat stop
      | quotient => exact mirrors_quotient ih hat
      | single => exact mirrors_single ih hat

/-- How a program ends that is started at `pos` and does what a reader has done. -/
def Outcome.of {α : Type} {n : Nat} (ts : List Lexeme) (pos : Nat) : Except ParseError (Parsed α n) → Outcome α
  | .error e => .error e
  | .ok r => .value r.value (pos + (ts.length - pos - r.rest.length))

theorem Mirrors.runsSafely {allowed : Routine × Nat → Prop} {α : Type} {n : Nat} {p : Program α}
    {x : Except ParseError (Parsed α n)} (h : Mirrors units size ts allowed p pos x) :
    RunsSafely units size ts allowed p pos (.of ts pos x) := by
  cases x with
  | error e => exact h.error e rfl
  | ok r =>
      obtain ⟨pos', hrun, hrest⟩ := h.ok r rfl
      obtain ⟨hle, hbound⟩ := hrun.position_le
      have hend : pos + (ts.length - pos - r.rest.length) = pos' := by
        rw [← hrest, List.length_drop]
        omega
      show RunsSafely units size ts allowed p pos (.value r.value (pos + (ts.length - pos - r.rest.length)))
      rwa [hend]

theorem runsSafely_body (units : UnitCatalog) (size : Nat) (ts : List Lexeme) (r : Routine) (pos stop : Nat) :
    RunsSafely units size ts (Precedes ts (r, pos)) (body units size r) pos
      (.of ts pos (r.read units stop (ts.drop pos))) :=
  (faithful units size ts (r, pos) stop).runsSafely

/-- Every routine ends, and in the way its reader does. -/
theorem runs_body_iff (stop : Nat) {o : Outcome r.Value} :
    Runs units size ts (body units size r) pos o ↔ o = .of ts pos (r.read units stop (ts.drop pos)) := by
  have hruns := (runsSafely_body units size ts r pos stop).runs
  constructor
  · exact fun h => h.unique hruns
  · rintro rfl
    exact hruns

theorem precedes_of_calls (h : Calls units size ts x y) : Precedes ts x y := by
  obtain ⟨k, hk⟩ := h
  exact ((runsSafely_body units size ts x.1 x.2 0).of_reaches hk).1.allowed_of_call

theorem Precedes.trans (hxy : Precedes ts x y) (hyz : Precedes ts y z) : Precedes ts x z := by
  unfold Precedes at *
  omega

theorem precedes_of_transGen (h : Relation.TransGen (Calls units size ts) x y) : Precedes ts x y := by
  induction h with
  | single h => exact precedes_of_calls h
  | tail _ h ih => exact ih.trans (precedes_of_calls h)

/-- Both are iterations of the same loop. -/
inductive Routine.SameLoop : Routine → Routine → Prop where
  | params : SameLoop .params .params
  | fields (fs fs' : List (Field Scheme)) : SameLoop (.fields fs) (.fields fs')
  | args : SameLoop .args .args
  | factors (first : Nat) (u u' : UnitScheme) : SameLoop (.factors first u) (.factors first u')

theorem Precedes.lt_of_rank_eq (h : Precedes ts x y) (hrank : x.1.rank = y.1.rank) : x.2 < y.2 := by
  unfold Precedes at h
  omega

theorem Routine.SameLoop.rank_eq {r r' : Routine} (h : r.SameLoop r') : r.rank = r'.rank := by
  cases h <;> rfl

/-- A routine that has to read something has done so when it succeeds. -/
theorem lt_of_runs {v : r.Value} {pos' : Nat} (hstrict : r.slack = 0)
    (h : Runs units size ts (body units size r) pos (.value v pos')) : pos < pos' ∧ pos' ≤ ts.length := by
  have hend := (runs_body_iff 0).1 h
  cases hread : r.read units 0 (ts.drop pos) with
  | error e =>
      rw [hread] at hend
      cases hend
  | ok res =>
      rw [hread] at hend
      cases hend
      have hwithin := res.within
      have hlength : (ts.drop pos).length = ts.length - pos := List.length_drop
      omega

/-- The position stays between where the first call started and the end of the list, through all calls. -/
theorem position_of_reaches {p : Program y.1.Value} (hxy : Relation.ReflTransGen (Calls units size ts) x y)
    (hp : Reaches units size ts (body units size y.1) y.2 p pos) : x.2 ≤ pos ∧ pos ≤ max x.2 ts.length := by
  obtain ⟨-, hle, hbound⟩ := (runsSafely_body units size ts y.1 y.2 0).of_reaches hp
  rcases Relation.reflTransGen_iff_eq_or_transGen.1 hxy with rfl | hxy
  · exact ⟨hle, hbound⟩
  · have hprecedes := precedes_of_transGen hxy
    unfold Precedes at hprecedes
    omega

/-- The parser always advances and ends, whatever the lexemes are and wherever it starts.

* Every routine ends in exactly one way, as its reader does, and so not with a crash.
* A routine that succeeds has read at least one lexeme, except for those that read what may be missing.
* From one type or unit to another one inside it, through any calls, the position grows.
* From one iteration of a loop to the next one the position grows.
* The position never leaves the list, and every index is in range.
* There is no infinite chain of calls. -/
theorem parser_advances (units : UnitCatalog) (size : Nat) (ts : List Lexeme) :
    (∀ r pos stop o, Runs units size ts (body units size r) pos o ↔
      o = .of ts pos (r.read units stop (ts.drop pos))) ∧
    (∀ (r : Routine) pos v pos', r.slack = 0 → Runs units size ts (body units size r) pos (.value v pos') →
      pos < pos' ∧ pos' ≤ ts.length) ∧
    (∀ x y : Routine × Nat, x.1 = .type ∨ x.1 = .unit → y.1 = .type ∨ y.1 = .unit →
      Relation.TransGen (Calls units size ts) x y → x.2 < y.2) ∧
    (∀ x y : Routine × Nat, x.1.SameLoop y.1 → Calls units size ts x y → x.2 < y.2) ∧
    (∀ (x y : Routine × Nat) p pos, Relation.ReflTransGen (Calls units size ts) x y →
      Reaches units size ts (body units size y.1) y.2 p pos →
        (x.2 ≤ pos ∧ pos ≤ max x.2 ts.length) ∧ ∀ i k, p = .index i k → i < ts.length) ∧
    WellFounded fun y x => Calls units size ts x y := by
  refine ⟨fun r pos stop o => runs_body_iff stop, fun r pos v pos' => lt_of_runs, fun x y hx hy h => ?_,
    fun x y hloop h => (precedes_of_calls h).lt_of_rank_eq hloop.rank_eq, fun x y p pos hxy hp => ?_,
    Subrelation.wf precedes_of_calls (wellFounded_precedes ts)⟩
  · have hrank : ∀ r : Routine, r = .type ∨ r = .unit → r.rank = 2 := by
      rintro _ (rfl | rfl)
      · rfl
      · rfl
    exact (precedes_of_transGen h).lt_of_rank_eq ((hrank _ hx).trans (hrank _ hy).symm)
  · refine ⟨position_of_reaches hxy hp, ?_⟩
    rintro i k rfl
    exact ((runsSafely_body units size ts y.1 y.2 0).of_reaches hp).1.lt_of_index

/-- In `m/m/s` the second slash is looked up by its index, and in `(m)` a unit is read inside another one. -/
theorem parser_advances_of_second_slash :
    let slashes : List Lexeme := [⟨.name "m", "m", ⟨0, 1⟩⟩, ⟨.div, "/", ⟨1, 2⟩⟩, ⟨.name "m", "m", ⟨2, 3⟩⟩,
      ⟨.div, "/", ⟨3, 4⟩⟩, ⟨.name "s", "s", ⟨4, 5⟩⟩]
    let brackets : List Lexeme := [⟨.lparen, "(", ⟨0, 1⟩⟩, ⟨.name "m", "m", ⟨1, 2⟩⟩, ⟨.rparen, ")", ⟨2, 3⟩⟩]
    (∃ k, Reaches .builtin 5 slashes (body .builtin 5 .quotient) 0 (.index 3 k) 3 ∧ 3 < slashes.length) ∧
      ∃ pos, Relation.TransGen (Calls .builtin 3 brackets) (.unit, 0) (.unit, pos) ∧ 0 < pos := by
  intro slashes brackets
  refine ⟨?_, ?_⟩
  · have hfirst : Runs .builtin 5 slashes (body .builtin 5 .single) 0 (.value (.single (.unit ⟨"m", "metre"⟩)) 1) :=
      .peek (.advance (.peek .done))
    have hsecond : Runs .builtin 5 slashes (body .builtin 5 .single) 2 (.value (.single (.unit ⟨"m", "metre"⟩)) 3) :=
      .peek (.advance (.peek .done))
    have hindex : ∃ k, Reaches .builtin 5 slashes (body .builtin 5 .quotient) 0 (.index 3 k) 3 :=
      ⟨_, .peek (.call hfirst (.peek (.advance (.call hsecond (.peek (.position .here))))))⟩
    obtain ⟨k, hk⟩ := hindex
    have hprogress := (parser_advances .builtin 5 slashes).2.2.2.2.1 (.quotient, 0) (.quotient, 0) _ _ .refl hk
    exact ⟨k, hk, hprogress.2 3 k rfl⟩
  · have hquotient : Calls .builtin 3 brackets (.unit, 0) (.quotient, 0) := ⟨_, .peek .here⟩
    have hsingle : Calls .builtin 3 brackets (.quotient, 0) (.single, 0) := ⟨_, .peek .here⟩
    have hunit : Calls .builtin 3 brackets (.single, 0) (.unit, 1) := ⟨_, .peek (.advance .here)⟩
    have hcalls := ((Relation.TransGen.single hquotient).tail hsingle).tail hunit
    exact ⟨1, hcalls, (parser_advances .builtin 3 brackets).2.2.1 _ _ (.inr rfl) (.inr rfl) hcalls⟩

end Progress

end Parser

end Tabula
