import Tabula.Scheme.Parser

/-!
# The grammar of written types

The grammar that is written out above `UnitScheme.read` and `Scheme.read`, as a relation between sequences of
tokens and phrases.  A phrase is a nonterminal together with the value of what is derived from it, so one
relation covers all nonterminals.

The relation says nothing about places in a source text and nothing about the order in which a reader meets
the tokens.  That the readers accept exactly what is derived is proved elsewhere; here are the rules alone and
what they say about the names in a derived phrase.
-/

namespace Tabula

/-- A nonterminal of the grammar with the value of what is derived from it. -/
inductive Phrase where
  /-- A product of quotients. -/
  | unit (u : UnitScheme)
  | quotient (u : UnitScheme)
  | single (u : UnitScheme)
  /-- A unit name or a unit variable. -/
  | atom (a : Atom Name)
  | type (t : Scheme)
  /-- One or more parameters of a function type. -/
  | params (ts : List Scheme)
  | field (f : Field Scheme)
  /-- The inside of a record that is not empty, with its fields in the order in which they are written. -/
  | fields (fs : List (Field Scheme)) (complete : Bool)
  /-- The arguments behind the name of a tagged type. -/
  | args (as : List (Arg UnitScheme Scheme))

/-- The tokens form a phrase of the grammar, where unit names refer to the declared units `units`. -/
inductive Derives (units : UnitCatalog) : List Token → Phrase → Prop where
  | oneQuotient {ts : List Token} {u : UnitScheme} (h : Derives units ts (.quotient u)) :
      Derives units ts (.unit u)
  | times {ts ts' : List Token} {u v w : UnitScheme} (hu : Derives units ts (.unit u))
      (hv : Derives units ts' (.quotient v)) (hw : u.times? v = some w) :
      Derives units (ts ++ .times :: ts') (.unit w)
  | oneSingle {ts : List Token} {u : UnitScheme} (h : Derives units ts (.single u)) :
      Derives units ts (.quotient u)
  | divided {ts ts' : List Token} {u v w : UnitScheme} (hu : Derives units ts (.single u))
      (hv : Derives units ts' (.single v)) (hw : u.divideByInverse? v = some w) :
      Derives units (ts ++ .div :: ts') (.quotient w)
  | one : Derives units [.int 1] (.single .one)
  | bracketed {ts : List Token} {u : UnitScheme} (h : Derives units ts (.unit u)) :
      Derives units (.lparen :: ts ++ [.rparen]) (.single u)
  | firstPower {ts : List Token} {a : Atom Name} (h : Derives units ts (.atom a)) :
      Derives units ts (.single (.single a))
  | power {ts : List Token} {a : Atom Name} {p : Exponent} {w : UnitScheme}
      (h : Derives units ts (.atom a)) (hw : (Product.single a).raise? p = some w) :
      Derives units (ts ++ [.pow, .int p]) (.single w)
  | unitName {t : Token} {n : Name} {u : SingleUnit} (hn : t.asName? = some n)
      (hu : units.find? n = some u) : Derives units [t] (.atom (.unit u))
  | unitVar {t : Token} {n : Name} (hn : t.asName? = some n) :
      Derives units [.unitVar, t] (.atom (.var n))
  | primitive {k : Keyword} {p : Primitive} (hk : Scheme.primitive? k = some p) :
      Derives units [.keyword k] (.type (.primitive p))
  | plainNumber : Derives units [.keyword .number] (.type (.number .one))
  | number {ts : List Token} {u : UnitScheme} (h : Derives units ts (.unit u)) :
      Derives units (.keyword .number :: .lbrace :: ts ++ [.rbrace]) (.type (.number u))
  | array {ts : List Token} {t : Scheme} (h : Derives units ts (.type t)) :
      Derives units (.lbracket :: ts ++ [.rbracket]) (.type (.array t))
  | constant {ts : List Token} {r : Scheme} (h : Derives units ts (.type r)) :
      Derives units (.lparen :: .lparen :: .rparen :: .arrow :: ts ++ [.rparen]) (.type (.function [] r))
  | function {ts ts' : List Token} {ps : List Scheme} {r : Scheme} (hp : Derives units ts (.params ps))
      (hr : Derives units ts' (.type r)) :
      Derives units (.lparen :: .lparen :: ts ++ .rparen :: .arrow :: ts' ++ [.rparen])
        (.type (.function ps r))
  | lastParam {ts : List Token} {t : Scheme} (h : Derives units ts (.type t)) :
      Derives units ts (.params [t])
  | moreParams {ts ts' : List Token} {t : Scheme} {ps : List Scheme} (ht : Derives units ts (.type t))
      (hp : Derives units ts' (.params ps)) : Derives units (ts ++ .comma :: ts') (.params (t :: ps))
  | emptyRecord : Derives units [.lparen, .rparen] (.type (.record [] true))
  | record {ts : List Token} {fs : List (Field Scheme)} {complete : Bool}
      (h : Derives units ts (.fields fs complete)) (distinct : (fs.map Field.name).Nodup) :
      Derives units (.lparen :: ts ++ [.rparen]) (.type (.recordOf fs complete))
  | dots : Derives units [.ellipsis] (.fields [] false)
  | lastField {ts : List Token} {f : Field Scheme} (h : Derives units ts (.field f)) :
      Derives units ts (.fields [f] true)
  | moreFields {ts ts' : List Token} {f : Field Scheme} {fs : List (Field Scheme)} {complete : Bool}
      (hf : Derives units ts (.field f)) (hfs : Derives units ts' (.fields fs complete)) :
      Derives units (ts ++ .comma :: ts') (.fields (f :: fs) complete)
  | required {t : Token} {n : Name} {ts : List Token} {type : Scheme} (hn : t.asName? = some n)
      (h : Derives units ts (.type type)) :
      Derives units (t :: .colon :: ts) (.field ⟨n, type, true⟩)
  | optional {t : Token} {n : Name} {ts : List Token} {type : Scheme} (hn : t.asName? = some n)
      (h : Derives units ts (.type type)) :
      Derives units (t :: .question :: .colon :: ts) (.field ⟨n, type, false⟩)
  | tagged {n : Name} {ts : List Token} {as : List (Arg UnitScheme Scheme)}
      (h : Derives units ts (.args as)) : Derives units (.name n :: ts) (.type (.tagged n as))
  | noArgs : Derives units [] (.args [])
  | typeArg {ts ts' : List Token} {t : Scheme} {as : List (Arg UnitScheme Scheme)}
      (ht : Derives units ts (.type t)) (has : Derives units ts' (.args as)) :
      Derives units (.lparen :: ts ++ .rparen :: ts') (.args (.type t :: as))
  | unitArg {ts ts' : List Token} {u : UnitScheme} {as : List (Arg UnitScheme Scheme)}
      (hu : Derives units ts (.unit u)) (has : Derives units ts' (.args as)) :
      Derives units (.lparen :: .lbrace :: ts ++ .rbrace :: .rparen :: ts') (.args (.unit u :: as))

end Tabula
