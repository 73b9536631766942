import Tabula.Proofs.Results
import Tabula.Scheme.Parser

/-!
# What reading takes from the declared units

Texts are read with a catalog of units at hand, and the readers do nothing with it but look names up.  So two catalogs
that answer every lookup alike, with the same unit or with the same suggestions, give the same for every text: the same
type or unit, or the same error.

The readers call each other on shorter and shorter lists of lexemes, and the proofs follow them call by call.
-/

namespace Tabula

variable {units units' : UnitCatalog}

/-- Every name is answered alike, with the same unit or with the same suggestions. -/
def UnitCatalog.AnswersAlike (units units' : UnitCatalog) : Prop :=
  ∀ name, units.get name = units'.get name

namespace UnitScheme

mutual

theorem read_congr (h : units.AnswersAlike units') (ts : List Lexeme) : read units ts = read units' ts := by
  rw [read, read]
  refine stepwise_eq.bind (readQuotient_congr h ts) fun first => ?_
  rw [readFactors_congr h (Lexeme.startOf ts) first.value first.stop first.rest]
termination_by (ts.length, 3)
decreasing_by
  · exact Prod.Lex.right _ (by decide)
  · exact Prod.Lex.left _ _ first.within

theorem readFactors_congr (h : units.AnswersAlike units') (start : Nat) (u : UnitScheme) (stop : Nat)
    (ts : List Lexeme) : readFactors units start u stop ts = readFactors units' start u stop ts := by
  cases ts with
  | nil => rw [readFactors, readFactors]
  | cons l rest =>
      rw [readFactors, readFactors]
      split
      · refine stepwise_eq.bind (readQuotient_congr h rest) fun factor => ?_
        split
        · rfl
        · rw [readFactors_congr h start _ factor.stop factor.rest]
      · rfl
termination_by (ts.length, 0)
decreasing_by
  · exact Prod.Lex.left _ _ (by simp)
  · exact Prod.Lex.left _ _ (by have := factor.within; simp only [List.length_cons]; omega)

theorem readQuotient_congr (h : units.AnswersAlike units') (ts : List Lexeme) :
    readQuotient units ts = readQuotient units' ts := by
  rw [readQuotient, readQuotient]
  refine stepwise_eq.bind (readSingle_congr h ts) fun numerator => ?_
  split
  · rfl
  · rename_i l rest hrest
    have hlength : rest.length + 1 < ts.length := by
      have := numerator.within
      rw [hrest] at this
      exact this
    split
    · rw [readSingle_congr h rest]
    · rfl
termination_by (ts.length, 2)
decreasing_by
  · exact Prod.Lex.right _ (by decide)
  · exact Prod.Lex.left _ _ (by omega)

/-- The only reader that looks anything up. -/
theorem readSingle_congr (h : units.AnswersAlike units') (ts : List Lexeme) :
    readSingle units ts = readSingle units' ts := by
  cases ts with
  | nil => rw [readSingle, readSingle]
  | cons l rest =>
      rw [readSingle, readSingle, read_congr h rest]
      simp only [h _]
termination_by (ts.length, 1)
decreasing_by
  · exact Prod.Lex.left _ _ (by simp)

end

end UnitScheme

namespace Scheme

theorem readNumber_congr (h : units.AnswersAlike units') (stop : Nat) (ts : List Lexeme) :
    readNumber units stop ts = readNumber units' stop ts := by
  simp only [readNumber, UnitScheme.read_congr h]

mutual

theorem read_congr (h : units.AnswersAlike units') (ts : List Lexeme) : read units ts = read units' ts := by
  cases ts with
  | nil => rw [read, read]
  | cons l rest =>
      rw [read, read]
      split
      · split
        · rfl
        · rw [readNumber_congr h]
      · rw [read_congr h rest]
      · dsimp only
        split
        · rw [readFunction_congr h (Lexeme.eat .lparen l.span.stop rest).rest]
        · rw [readRecord_congr h rest]
      · rw [readArgs_congr h l.span.stop rest]
      · rfl
termination_by (ts.length, 0)
decreasing_by
  · exact Prod.Lex.left _ _ (by simp)
  · exact Prod.Lex.left _ _ (by simp)
  · exact Prod.Lex.left _ _ (Lexeme.eat .lparen l.span.stop rest).within
  · exact Prod.Lex.left _ _ (by simp)

theorem readFunction_congr (h : units.AnswersAlike units') (ts : List Lexeme) :
    readFunction units ts = readFunction units' ts := by
  rw [readFunction, readFunction]
  refine stepwise_eq.bind (readParamList_congr h ts) fun params => stepwise_eq.bind rfl fun arrow => ?_
  rw [read_congr h arrow.rest]
termination_by (ts.length, 3)
decreasing_by
  · exact Prod.Lex.right _ (by decide)
  · exact Prod.Lex.left _ _ (by have := params.within; have := arrow.within; omega)

theorem readParamList_congr (h : units.AnswersAlike units') (ts : List Lexeme) :
    readParamList units ts = readParamList units' ts := by
  cases ts with
  | nil => rw [readParamList, readParamList, readParams_congr h []]
  | cons l rest => rw [readParamList, readParamList, readParams_congr h (l :: rest)]
termination_by (ts.length, 2)
decreasing_by
  · exact Prod.Lex.right _ (by decide)
  · exact Prod.Lex.right _ (by decide)

theorem readParams_congr (h : units.AnswersAlike units') (ts : List Lexeme) :
    readParams units ts = readParams units' ts := by
  rw [readParams, readParams]
  refine stepwise_eq.bind (read_congr h ts) fun first => stepwise_eq.bind rfl fun mark => ?_
  rw [readParams_congr h mark.rest]
termination_by (ts.length, 1)
decreasing_by
  · exact Prod.Lex.right _ (by decide)
  · exact Prod.Lex.left _ _ (by have := first.within; have := mark.within; omega)

theorem readRecord_congr (h : units.AnswersAlike units') (ts : List Lexeme) :
    readRecord units ts = readRecord units' ts := by
  cases ts with
  | nil => rw [readRecord, readRecord, readFields_congr h [] []]
  | cons l rest => rw [readRecord, readRecord, readFields_congr h [] (l :: rest)]
termination_by (ts.length, 3)
decreasing_by
  · exact Prod.Lex.right _ (by decide)
  · exact Prod.Lex.right _ (by decide)

theorem readFields_congr (h : units.AnswersAlike units') (fields : List (Field Scheme)) (ts : List Lexeme) :
    readFields units fields ts = readFields units' fields ts := by
  rw [readFields, readFields]
  dsimp only
  split
  · rfl
  · refine stepwise_eq.bind (readField_congr h ts) fun field => ?_
    split
    · rfl
    · refine stepwise_eq.bind rfl fun mark => ?_
      rw [readFields_congr h _ mark.rest]
termination_by (ts.length, 2)
decreasing_by
  · exact Prod.Lex.right _ (by decide)
  · exact Prod.Lex.left _ _ (by have := field.within; have := mark.within; omega)

theorem readField_congr (h : units.AnswersAlike units') (ts : List Lexeme) :
    readField units ts = readField units' ts := by
  rw [readField, readField]
  refine stepwise_eq.bind rfl fun name => stepwise_eq.bind rfl fun colon => ?_
  rw [read_congr h colon.rest]
termination_by (ts.length, 1)
decreasing_by
  · exact Prod.Lex.left _ _ (by
      have := name.within
      have := (Lexeme.eat .question name.stop name.rest).within
      have := colon.within
      omega)

theorem readArgs_congr (h : units.AnswersAlike units') (stop : Nat) (ts : List Lexeme) :
    readArgs units stop ts = readArgs units' stop ts := by
  cases ts with
  | nil => rw [readArgs, readArgs]
  | cons l rest =>
      rw [readArgs, readArgs]
      split
      · refine stepwise_eq.bind (readArg_congr h rest) fun arg => stepwise_eq.bind rfl fun close => ?_
        rw [readArgs_congr h close.stop close.rest]
      · rfl
termination_by (ts.length, 0)
decreasing_by
  · exact Prod.Lex.left _ _ (by simp)
  · exact Prod.Lex.left _ _ (by
      have := arg.within
      have := close.within
      simp only [List.length_cons]
      omega)

theorem readArg_congr (h : units.AnswersAlike units') (ts : List Lexeme) : readArg units ts = readArg units' ts := by
  rw [readArg, readArg, UnitScheme.read_congr h, read_congr h ts]
termination_by (ts.length, 1)
decreasing_by
  · exact Prod.Lex.right _ (by decide)

end

end Scheme

/-- Types are read alike. -/
theorem Scheme.parse_congr (h : units.AnswersAlike units') (source : String) :
    Scheme.parse units source = Scheme.parse units' source := by
  rw [parse, parse, funext (read_congr h)]

/-- Units are read alike. -/
theorem UnitScheme.parse_congr (h : units.AnswersAlike units') (source : String) :
    UnitScheme.parse units source = UnitScheme.parse units' source := by
  rw [parse, parse, funext (read_congr h)]

end Tabula
