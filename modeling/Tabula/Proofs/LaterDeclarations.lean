import Tabula.Proofs.Declarations
import Tabula.Proofs.GrammarReading
import Tabula.Proofs.GroundingSteps

/-!
# Later declarations change no meaning

A text is read with the declared units, and the type that it stands for is made ground with the declared tagged
types.  Both look names up in the catalog.  A declaration adds an entry under a name that had none, or it is
refused and adds nothing, so whatever was found before is found after any number of declarations, and a text that
had a meaning keeps it.

Nothing of the kind holds of texts without a meaning: a name that was unknown may be declared later, and the
suggestions that come with an error depend on everything that is declared.
-/

namespace Tabula

namespace Catalog

variable {c c' c'' : Catalog}

/-- What is declared in the first catalog is declared in the second one, and optional fields have the same
wrapper. -/
structure Grows (c c' : Catalog) : Prop where
  types : ∀ name d, c.find? name = some d → c'.find? name = some d
  units : ∀ name u, c.units.find? name = some u → c'.units.find? name = some u
  wrapper : c'.wrapper = c.wrapper

theorem Grows.refl (c : Catalog) : c.Grows c :=
  ⟨fun _ _ h => h, fun _ _ h => h, rfl⟩

theorem Grows.trans (h : c.Grows c') (h' : c'.Grows c'') : c.Grows c'' where
  types name d hd := h'.types name d (h.types name d hd)
  units name u hu := h'.units name u (h.units name u hu)
  wrapper := h'.wrapper.trans h.wrapper

/-- An entry is added at the end of its list, so names are looked up among the earlier ones first. -/
theorem grows_add (c : Catalog) (d : Declaration) : c.Grows (c.add d) := by
  cases d with
  | type d =>
      refine ⟨fun name e he => ?_, fun _ _ h => h, rfl⟩
      rw [find?_eq] at he ⊢
      rw [add, types_addType, List.find?_append, he, Option.some_or]
  | unit name description =>
      refine ⟨fun _ _ h => h, fun name u hu => ?_, rfl⟩
      rw [UnitCatalog.find?_eq] at hu ⊢
      rw [add, UnitCatalog.units_add, List.find?_append, hu, Option.some_or]

theorem grows_afterDeclaration (c : Catalog) (d : Declaration) : c.Grows (c.afterDeclaration d) :=
  afterDeclaration_preserves (.refl c) fun _ => c.grows_add d

theorem grows_afterDeclarations (c : Catalog) (ds : List Declaration) : c.Grows (c.afterDeclarations ds) := by
  induction ds generalizing c with
  | nil => exact .refl c
  | cons d ds ih => exact (c.grows_afterDeclaration d).trans (ih _)

end Catalog

/-- What the grammar derives with some units is derived with more units, and stands for the same. -/
theorem Derives.mono {units units' : UnitCatalog}
    (hunits : ∀ name u, units.find? name = some u → units'.find? name = some u) {ts : List Token} {p : Phrase}
    (h : Derives units ts p) : Derives units' ts p := by
  induction h with
  | oneQuotient _ ih => exact .oneQuotient ih
  | times _ _ hw ihu ihv => exact .times ihu ihv hw
  | oneSingle _ ih => exact .oneSingle ih
  | divided _ _ hw ihu ihv => exact .divided ihu ihv hw
  | one => exact .one
  | bracketed _ ih => exact .bracketed ih
  | firstPower _ ih => exact .firstPower ih
  | power _ hw ih => exact .power ih hw
  -- The only rule that looks anything up.
  | unitName hn hu => exact .unitName hn (hunits _ _ hu)
  | unitVar hn => exact .unitVar hn
  | primitive hk => exact .primitive hk
  | plainNumber => exact .plainNumber
  | number _ ih => exact .number ih
  | array _ ih => exact .array ih
  | constant _ ih => exact .constant ih
  | function _ _ ihp ihr => exact .function ihp ihr
  | lastParam _ ih => exact .lastParam ih
  | moreParams _ _ iht ihp => exact .moreParams iht ihp
  | emptyRecord => exact .emptyRecord
  | record _ distinct ih => exact .record ih distinct
  | dots => exact .dots
  | lastField _ ih => exact .lastField ih
  | moreFields _ _ ihf ihfs => exact .moreFields ihf ihfs
  | required hn _ ih => exact .required hn ih
  | optional hn _ ih => exact .optional hn ih
  | tagged _ ih => exact .tagged ih
  | noArgs => exact .noArgs
  | typeArg _ _ iht ihas => exact .typeArg iht ihas
  | unitArg _ _ ihu ihas => exact .unitArg ihu ihas

namespace Scheme

variable {s : Substitution} {c c' : Catalog}

/-- A declared type keeps its meaning. -/
theorem groundTagged_atMost (h : c.Grows c') (name : Name) (values : List (Arg Measure GroundType))
    (part : Unresolved) : AtMost (groundTagged c name values part) (groundTagged c' name values part) := by
  intro d hd
  unfold groundTagged at hd
  split at hd
  · rename_i hlookup
    cases hd
    cases hfind : c.find? name with
    | none =>
        rw [Catalog.lookup, hfind] at hlookup
        cases hlookup
    | some definition =>
        have hlater : c'.lookup name values = .ok (some d) := by
          rw [← hlookup, Catalog.lookup, Catalog.lookup, hfind, h.types name definition hfind]
        simp only [groundTagged, hlater]
  · cases hd
  · cases hd

theorem groundFieldType_atMost (h : c.Grows c') (required : Bool) (d : GroundType) :
    AtMost (groundFieldType c required d) (groundFieldType c' required d) := by
  have hwrap : c'.wrap d = c.wrap d := by rw [Catalog.wrap, Catalog.wrap, h.wrapper]
  rw [groundFieldType, groundFieldType, hwrap]
  exact .refl _

/-- A written type that has a ground type keeps it when the catalog grows. -/
theorem toGround_atMost (h : c.Grows c') (t : Scheme) : AtMost (t.toGround s c) (t.toGround s c') :=
  toGround_related stepwise_atMost (groundTagged_atMost h) (groundFieldType_atMost h) t

theorem parse_atMost (h : c.Grows c') (source : String) :
    AtMost (Scheme.parse c.units source) (Scheme.parse c'.units source) := by
  intro t ht
  obtain ⟨ls, hls, hderives⟩ := parse_eq_ok_iff.1 ht
  exact parse_eq_ok_iff.2 ⟨ls, hls, hderives.mono h.units⟩

end Scheme

/-- A text that is read as a type with a ground type is read as the same type with the same ground type after any
declarations, whether these succeed or not. -/
theorem Catalog.meaning_afterDeclarations (c : Catalog) (ds : List Declaration) (source : String)
    (s : Substitution) {t : Scheme} {d : GroundType} (hparse : Scheme.parse c.units source = .ok t)
    (hground : t.toGround s c = .ok d) :
    Scheme.parse (c.afterDeclarations ds).units source = .ok t ∧ t.toGround s (c.afterDeclarations ds) = .ok d := by
  have hgrows := c.grows_afterDeclarations ds
  exact ⟨Scheme.parse_atMost hgrows source t hparse, Scheme.toGround_atMost hgrows t d hground⟩

/-- A type with the name of a bound variable is declared later, a unit and the wrapper of optional fields are
declared anew and refused, and a field of a record is optional. -/
theorem Catalog.meaning_afterDeclarations_of_variable_name :
    let ds : List Declaration := [.type ⟨"Optional", [], []⟩, .unit "m" "mile", .type ⟨"a", [], []⟩, .unit "a" "are"]
    let source := "(n?: Number{m}, x: a)"
    let s : Substitution := Bindings.empty.insert "a" (.type (.primitive .date))
    let m : Measure := .single "m"
    let t : Scheme := .record [⟨"n", .number (.single (.unit ⟨"m", "metre"⟩)), false⟩, ⟨"x", .ident "a", true⟩] true
    let d : GroundType := .record [("n", .tagged "Optional" [.type (.number m)]), ("x", .primitive .date)]
    let later := builtin.afterDeclarations ds
    (Scheme.parse builtin.units source = .ok t ∧ t.toGround s builtin = .ok d) ∧
      (later.types.map TaggedType.name = ["Optional", "a"] ∧ (later.units.find? "a").isSome) ∧
      Scheme.parse later.units source = .ok t ∧ t.toGround s later = .ok d := by
  intro ds source s m t d later
  have hlex : (Lexeme.readAll source).map (List.map Lexeme.token) = .ok [.lparen, .name "n", .question, .colon,
      .keyword .number, .lbrace, .name "m", .rbrace, .comma, .name "x", .colon, .name "a", .rparen] :=
    toOption_eq_some_iff.1 (by decide +kernel)
  obtain ⟨ls, hls, htokens⟩ := map_eq_ok_iff.1 hlex
  have hm : Derives builtin.units [.name "m"] (.unit (.single (.unit ⟨"m", "metre"⟩))) :=
    .oneQuotient (.oneSingle (.firstPower (.unitName rfl rfl)))
  have hderives : Derives builtin.units (ls.map Lexeme.token) (.type t) := by
    rw [htokens]
    exact .record (.moreFields (.optional (t := .name "n") rfl (.number hm))
      (.lastField (.required (t := .name "x") rfl (.tagged (n := "a") .noArgs)))) (by decide)
  have hparse : Scheme.parse builtin.units source = .ok t := Scheme.parse_eq_ok_iff.2 ⟨ls, hls, hderives⟩
  exact ⟨⟨hparse, rfl⟩, by decide +kernel, builtin.meaning_afterDeclarations ds source s hparse rfl⟩

end Tabula
