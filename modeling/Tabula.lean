import Tabula.Ascending
import Tabula.Bindings
import Tabula.Catalog.Basic
import Tabula.Catalog.DeclarationError
import Tabula.Catalog.Sample
import Tabula.Catalog.TaggedType
import Tabula.Catalog.Units
import Tabula.Decimal
import Tabula.Exponent
import Tabula.Field
import Tabula.GroundType
import Tabula.Inference
import Tabula.Keyword
import Tabula.Kind
import Tabula.Measure
import Tabula.Name
import Tabula.Primitive
import Tabula.Product
import Tabula.Proofs.AscendingKeys
import Tabula.Proofs.Grammar
import Tabula.Proofs.Readers
import Tabula.Scheme.Basic
import Tabula.Scheme.Grounding
import Tabula.Scheme.ParseError
import Tabula.Scheme.Parser
import Tabula.Scheme.Printer
import Tabula.Scheme.UnitParser
import Tabula.Settings.Basic
import Tabula.Settings.Reader
import Tabula.Store.Basic
import Tabula.Store.Readback
import Tabula.Store.Unify
import Tabula.Store.UnifyError
import Tabula.Suggestion.Distance
import Tabula.Suggestion.Ranking
import Tabula.Term.Basic
import Tabula.Term.Outline
import Tabula.Text.Cased
import Tabula.Text.Lowercase
import Tabula.Text.Quoted
import Tabula.Text.Ranges
import Tabula.Text.Unshown
import Tabula.Token.Basic
import Tabula.Token.Lexer
import Tabula.Toml.Line
import Tabula.Toml.Moment
import Tabula.Toml.Number
import Tabula.Toml.Reader
import Tabula.Toml.Text
import Tabula.Toml.Value
import Tabula.Proofs.GrammarReading
import Tabula.Proofs.Unambiguous
import Tabula.Proofs.Spelling
import Tabula.Proofs.Equality
import Tabula.Proofs.Printable
import Tabula.Proofs.Acyclic
import Tabula.Proofs.RoundTrip
import Tabula.Proofs.TermParts
import Tabula.Proofs.StoreGraph
import Tabula.Proofs.StoreChanges
import Tabula.Proofs.UnifySteps
import Tabula.Proofs.StoreInvariant
import Tabula.Proofs.LevelBound
import Tabula.Proofs.BuiltAlike
import Tabula.Proofs.Substitution
import Tabula.Proofs.MostGeneral
import Tabula.Proofs.UnitPowers
import Tabula.Proofs.GroundReading
import Tabula.Proofs.Lowering
import Tabula.Proofs.InferenceSound
import Tabula.Proofs.Repair
import Tabula.Proofs.StaysSolved
import Tabula.Proofs.ProductRelations
import Tabula.Proofs.ReadingBack
import Tabula.Proofs.LaterDeclarations
import Tabula.Proofs.GroundParts
import Tabula.Proofs.FollowingValues
import Tabula.Proofs.ValidResults
import Tabula.Proofs.GroundTerms
import Tabula.Proofs.InferenceComplete
import Tabula.Proofs.FiniteRecursion
import Tabula.Proofs.LaterReadings
import Tabula.Proofs.CatalogInvariant
import Tabula.Proofs.WrittenGroundTypes
import Tabula.Proofs.DeclarationOrder
import Tabula.Proofs.ExactPowers
import Tabula.Proofs.UnitSolutions
import Tabula.Proofs.UnitPivots
import Tabula.Proofs.UnitMismatches
import Tabula.Proofs.UnitSymmetry
import Tabula.Proofs.InverseQuotients
import Tabula.Proofs.InterchangeableStores
import Tabula.Proofs.TypeSymmetry
import Tabula.Proofs.ReplacedVariables
import Tabula.Proofs.TokenGrammar
import Tabula.Proofs.ViablePrefixes
import Tabula.Proofs.TrackingReaders
import Tabula.Proofs.SyntaxErrors
import Tabula.Proofs.LongestTokens
import Tabula.Proofs.LosslessScan
import Tabula.Proofs.ErrorPlaces
import Tabula.Proofs.MeaningfulErrors
import Tabula.Proofs.RankedSuggestions
import Tabula.Proofs.UnitAlgebra
import Tabula.Proofs.UnitSubstitution
import Tabula.Proofs.BindingErrors
import Tabula.Proofs.LiftedUnits
import Tabula.Proofs.CanonicalForm
import Tabula.Proofs.ParserPrograms
import Tabula.Proofs.ParserProgress
