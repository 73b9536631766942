import Mathlib.Computability.Language
import Tabula.Scheme.Parser

/-!
# The language of written types

`Derives` relates tokens to the values that are read from them, so it leaves out what has no value: a record
with a repeated field, a unit that is not declared, a power that is out of range.  Here is the grammar alone, as
the rules of an extended Backus–Naur form, and the language that each expression generates.  It is a context-free
language over tokens.

A sentence is best looked at from its first token.  The equations at the end say for a unit and for a type which
tokens they may start with, and what has to follow each of them.
-/

namespace Tabula

/-- What the rules of the grammar define. -/
inductive Nonterminal where
  | unit
  | quotient
  | single
  | type
  /-- The inside of a record. -/
  | fields
  | field

/-- The right-hand side of a rule. -/
inductive Ebnf where
  /-- A token of this kind. -/
  | token (kind : Token → Prop)
  | seq (a b : Ebnf)
  | alt (a b : Ebnf)
  /-- At most once. -/
  | opt (a : Ebnf)
  /-- Any number of times. -/
  | many (a : Ebnf)
  | ref (n : Nonterminal)

namespace Ebnf

instance : Append Ebnf := ⟨seq⟩

instance : OrOp Ebnf := ⟨alt⟩

/-- This token. -/
def just (t : Token) : Ebnf := token (· = t)

/-- A name; keywords are names too. -/
def name : Ebnf := token fun t => t.asName?.isSome

/-- A name that is no keyword. -/
def typeName : Ebnf := token fun t => ∃ n, t = .name n

def integer : Ebnf := token fun t => ∃ p, t = .int p

/-- A keyword other than `Number`. -/
def primitive : Ebnf := token fun t => ∃ k, t = .keyword k ∧ k ≠ .number

/-- The expression between two tokens. -/
def enclosed (open' : Token) (a : Ebnf) (close : Token) : Ebnf := just open' ++ a ++ just close

/-- The rules of the grammar. -/
def rule : Nonterminal → Ebnf
  | .unit => ref .quotient ++ many (just .times ++ ref .quotient)
  | .quotient => ref .single ++ opt (just .div ++ ref .single)
  | .single =>
      just (.int 1)
      ||| enclosed .lparen (ref .unit) .rparen
      ||| (name ||| just .unitVar ++ name) ++ opt (just .pow ++ integer)
  | .type =>
      primitive
      ||| just (.keyword .number) ++ opt (enclosed .lbrace (ref .unit) .rbrace)
      ||| enclosed .lbracket (ref .type) .rbracket
      ||| enclosed .lparen (enclosed .lparen (opt (ref .type ++ many (just .comma ++ ref .type))) .rparen
            ++ just .arrow ++ ref .type) .rparen
      ||| enclosed .lparen (ref .fields) .rparen
      ||| typeName ++ many (enclosed .lparen (enclosed .lbrace (ref .unit) .rbrace ||| ref .type) .rparen)
  | .fields =>
      just .ellipsis
      ||| opt (ref .field ++ many (just .comma ++ ref .field) ++ opt (just .comma ++ just .ellipsis))
  | .field => name ++ opt (just .question) ++ just .colon ++ ref .type

/-- The tokens can be generated from the expression by the rules of the grammar. -/
inductive Generates : Ebnf → List Token → Prop where
  | token {kind : Token → Prop} {t : Token} (h : kind t) : Generates (token kind) [t]
  | seq {a b : Ebnf} {ts ts' : List Token} (ha : Generates a ts) (hb : Generates b ts') :
      Generates (seq a b) (ts ++ ts')
  | left {a b : Ebnf} {ts : List Token} (h : Generates a ts) : Generates (alt a b) ts
  | right {a b : Ebnf} {ts : List Token} (h : Generates b ts) : Generates (alt a b) ts
  | never {a : Ebnf} : Generates (opt a) []
  | once {a : Ebnf} {ts : List Token} (h : Generates a ts) : Generates (opt a) ts
  | done {a : Ebnf} : Generates (many a) []
  | more {a : Ebnf} {ts ts' : List Token} (ha : Generates a ts) (hb : Generates (many a) ts') :
      Generates (many a) (ts ++ ts')
  | ref {n : Nonterminal} {ts : List Token} (h : Generates (rule n) ts) : Generates (ref n) ts

/-- The language of an expression. -/
def language (e : Ebnf) : Language Token := {ts | Generates e ts}

section Equations

variable (a b : Ebnf) {K : Language Token} {t : Token} {w : List Token}

/-- Concatenation of expressions is the product of languages. -/
@[simp] theorem language_append : (a ++ b).language = a.language * b.language := by
  ext w
  rw [Language.mem_mul]
  constructor
  · intro h
    cases h with
    | seq ha hb => exact ⟨_, ha, _, hb, rfl⟩
  · rintro ⟨ts, ha, ts', hb, rfl⟩
    exact .seq ha hb

/-- Alternatives are the sum of languages. -/
@[simp] theorem language_or : (a ||| b).language = a.language + b.language := by
  ext w
  rw [Language.mem_add]
  constructor
  · intro h
    cases h with
    | left h => exact .inl h
    | right h => exact .inr h
  · rintro (h | h)
    · exact .left h
    · exact .right h

theorem language_opt : (opt a).language = 1 + a.language := by
  ext w
  rw [Language.mem_add, Language.mem_one]
  constructor
  · intro h
    cases h with
    | never => exact .inl rfl
    | once h => exact .inr h
  · rintro (rfl | h)
    · exact .never
    · exact .once h

/-- A repetition is empty, or it is one time and a repetition. -/
theorem language_many : (many a).language = 1 + a.language * (many a).language := by
  ext w
  rw [Language.mem_add, Language.mem_one, Language.mem_mul]
  constructor
  · intro h
    cases h with
    | done => exact .inl rfl
    | more ha hb => exact .inr ⟨_, ha, _, hb, rfl⟩
  · rintro (rfl | ⟨ts, ha, ts', hb, rfl⟩)
    · exact .done
    · exact .more ha hb

/-- A nonterminal stands for the right-hand side of its rule. -/
theorem language_ref (n : Nonterminal) : (ref n).language = (rule n).language := by
  ext w
  constructor
  · intro h
    cases h with
    | ref h => exact h
  · exact .ref

/-- In front of `K`, an optional part is there or it is not. -/
theorem language_opt_mul : (opt a).language * K = K + a.language * K := by
  rw [language_opt, add_mul, one_mul]

theorem language_many_mul : (many a).language * K = K + a.language * ((many a).language * K) := by
  conv_lhs => rw [language_many, add_mul, one_mul, mul_assoc]

@[simp] theorem language_enclosed (o c : Token) :
    (enclosed o a c).language = (just o).language * (a.language * (just c).language) := by
  rw [enclosed, language_append, language_append, mul_assoc]

/-- In front of `K`, a token of some kind is the first one of a sentence. -/
@[simp] theorem cons_mem_token_mul {kind : Token → Prop} :
    t :: w ∈ (token kind).language * K ↔ kind t ∧ w ∈ K := by
  rw [Language.mem_mul]
  constructor
  · rintro ⟨_, h, ts, hts, happend⟩
    cases h with
    | token h =>
        obtain ⟨rfl, rfl⟩ := List.cons.inj happend
        exact ⟨h, hts⟩
  · rintro ⟨h, hw⟩
    exact ⟨[t], .token h, w, hw, rfl⟩

@[simp] theorem cons_mem_just_mul {s : Token} : t :: w ∈ (just s).language * K ↔ t = s ∧ w ∈ K :=
  cons_mem_token_mul

end Equations

section Rules

-- The rules, each in front of the language `K` of what follows.

variable {K : Language Token} {t : Token} {w : List Token}

/-- What follows a quotient in a product, and then `K`. -/
def moreFactors (K : Language Token) : Language Token :=
  (many (just .times ++ ref .quotient)).language * K

theorem moreFactors_eq :
    moreFactors K = K + (just .times).language * ((ref .quotient).language * moreFactors K) := by
  conv_lhs => rw [moreFactors, language_many_mul, ← moreFactors, language_append, mul_assoc]

theorem language_unit_mul : (ref .unit).language * K = (ref .quotient).language * moreFactors K := by
  rw [language_ref, rule, language_append, mul_assoc, moreFactors]

/-- In front of `K`, a quotient is one unit or two with a `/` between them. -/
theorem language_quotient_mul :
    (ref .quotient).language * K =
      (ref .single).language * (K + (just .div).language * ((ref .single).language * K)) := by
  rw [language_ref .quotient, rule, language_append, mul_assoc, language_opt_mul, language_append, mul_assoc]

/-- A single unit starts with `1`, a parenthesis, a name or `@unitvar`. -/
theorem cons_mem_single_mul :
    t :: w ∈ (ref .single).language * K ↔
      (t = .int 1 ∧ w ∈ K) ∨
      (t = .lparen ∧ w ∈ (ref .unit).language * ((just .rparen).language * K)) ∨
      (t.asName?.isSome ∧ w ∈ K + (just .pow).language * (integer.language * K)) ∨
      (t = .unitVar ∧ w ∈ name.language * (K + (just .pow).language * (integer.language * K))) := by
  simp only [language_ref .single, rule, language_or, language_append, language_opt_mul, language_enclosed, add_mul,
    mul_assoc, Language.mem_add, cons_mem_just_mul, name, cons_mem_token_mul, or_assoc]

theorem language_field_mul :
    (ref .field).language * K =
      name.language * ((just .colon).language * ((ref .type).language * K) +
        (just .question).language * ((just .colon).language * ((ref .type).language * K))) := by
  rw [language_ref .field, rule]
  simp only [language_append, language_opt_mul, add_mul, mul_assoc]

/-- A field starts with its name, and a colon follows, with or without a question mark before it. -/
theorem cons_mem_field_mul :
    t :: w ∈ (ref .field).language * K ↔ t.asName?.isSome ∧
      w ∈ (just .colon).language * ((ref .type).language * K) +
        (just .question).language * ((just .colon).language * ((ref .type).language * K)) := by
  rw [language_field_mul, name, cons_mem_token_mul]

/-- The parameters of a function type, the closing parenthesis and `K`. -/
def paramsThen (K : Language Token) : Language Token :=
  (opt (ref .type ++ many (just .comma ++ ref .type))).language * ((just .rparen).language * K)

/-- What follows a parameter, up to the closing parenthesis and `K`. -/
def moreParams (K : Language Token) : Language Token :=
  (many (just .comma ++ ref .type)).language * ((just .rparen).language * K)

theorem paramsThen_eq :
    paramsThen K = (ref .type).language * moreParams K + (just .rparen).language * K := by
  rw [paramsThen, language_opt_mul, language_append, mul_assoc, moreParams, add_comm]

theorem moreParams_eq :
    moreParams K = (just .rparen).language * K +
      (just .comma).language * ((ref .type).language * moreParams K) := by
  conv_lhs => rw [moreParams, language_many_mul, ← moreParams, language_append, mul_assoc]

/-- After a parameter the list ends or goes on with a comma. -/
theorem cons_mem_moreParams :
    t :: w ∈ moreParams K ↔ (t = .rparen ∧ w ∈ K) ∨ (t = .comma ∧ w ∈ (ref .type).language * moreParams K) := by
  rw [moreParams_eq, Language.mem_add, cons_mem_just_mul, cons_mem_just_mul, ← moreParams_eq]

/-- The inside of a record, the closing parenthesis and `K`. -/
def fieldsThen (K : Language Token) : Language Token :=
  (ref .fields).language * ((just .rparen).language * K)

/-- What follows a field, up to the closing parenthesis and `K`. -/
def moreFields (K : Language Token) : Language Token :=
  (many (just .comma ++ ref .field)).language *
    ((opt (just .comma ++ just .ellipsis)).language * ((just .rparen).language * K))

/-- A field and what follows it, or the dots in the place of fields. -/
def someFields (K : Language Token) : Language Token :=
  (ref .field).language * moreFields K + (just .ellipsis).language * ((just .rparen).language * K)

/-- A record has fields or dots, or it is empty. -/
theorem fieldsThen_eq : fieldsThen K = someFields K + (just .rparen).language * K := by
  rw [fieldsThen, language_ref, rule, language_or, add_mul, language_opt_mul, someFields, moreFields]
  simp only [language_append, mul_assoc, add_comm, add_left_comm]

theorem moreFields_eq :
    moreFields K = (just .rparen).language * K + (just .comma).language * someFields K := by
  rw [moreFields, language_many_mul, ← moreFields, language_opt_mul, someFields]
  simp only [language_append, mul_add, mul_assoc, add_assoc, add_comm]

/-- After a field the record ends or goes on with a comma. -/
theorem cons_mem_moreFields :
    t :: w ∈ moreFields K ↔ (t = .rparen ∧ w ∈ K) ∨ (t = .comma ∧ w ∈ someFields K) := by
  rw [moreFields_eq, Language.mem_add, cons_mem_just_mul, cons_mem_just_mul]

/-- The arguments of a tagged type, and then `K`. -/
def argsThen (K : Language Token) : Language Token :=
  (many (enclosed .lparen (enclosed .lbrace (ref .unit) .rbrace ||| ref .type) .rparen)).language * K

/-- One argument of a tagged type, without the parentheses around it, and then `K`. -/
def argThen (K : Language Token) : Language Token :=
  (ref .type).language * K +
    (just .lbrace).language * ((ref .unit).language * ((just .rbrace).language * K))

/-- Arguments stand each between parentheses, and any number of them may follow. -/
theorem argsThen_eq :
    argsThen K = K + (just .lparen).language * argThen ((just .rparen).language * argsThen K) := by
  conv_lhs => rw [argsThen, language_many_mul, ← argsThen]
  simp only [argThen, language_enclosed, language_or, add_mul, mul_add, mul_assoc]
  rw [add_comm ((just .lparen).language * ((just .lbrace).language * _))]

/-- A type starts with a keyword, a bracket, a parenthesis or a name.  After a parenthesis it is a function type or a
record, and the next token tells which. -/
theorem cons_mem_type_mul :
    t :: w ∈ (ref .type).language * K ↔
      ((∃ k, t = .keyword k ∧ k ≠ .number) ∧ w ∈ K) ∨
      (t = .keyword .number ∧
        w ∈ K + (just .lbrace).language * ((ref .unit).language * ((just .rbrace).language * K))) ∨
      (t = .lbracket ∧ w ∈ (ref .type).language * ((just .rbracket).language * K)) ∨
      (t = .lparen ∧ w ∈ (just .lparen).language * paramsThen
        ((just .arrow).language * ((ref .type).language * ((just .rparen).language * K)))) ∨
      (t = .lparen ∧ w ∈ fieldsThen K) ∨
      ((∃ n, t = .name n) ∧ w ∈ argsThen K) := by
  conv_lhs => rw [language_ref, rule]
  simp only [language_or, language_append, language_enclosed, add_mul, mul_assoc, Language.mem_add,
    cons_mem_just_mul, cons_mem_token_mul, primitive, typeName, or_assoc, language_opt_mul (enclosed _ _ _)]
  rfl

end Rules

end Ebnf

end Tabula
