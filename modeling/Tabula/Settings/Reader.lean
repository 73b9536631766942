import Tabula.Decimal
import Tabula.Settings.Basic
import Tabula.Toml.Reader

/-!
# Settings in configuration documents

A document may have one table, `suggestions`, with the settings.  Settings that are not given keep their
defaults, and anything else in the document is an error.  A list in the place of the table gives the settings
in order; items behind the last setting are not looked at.
-/

namespace Tabula

/-- Why a document has no settings. -/
inductive SettingsError where
  /-- The document is malformed, or a value is missing or of the wrong kind. -/
  | malformed
  | similarityOutOfRange (x : Float)

/-- What is told to the user about a value out of range. -/
def SettingsError.message : SettingsError → String
  | malformed => "malformed settings"
  | similarityOutOfRange x =>
      "`min_similarity` must be between 0 and 1, got " ++ Decimal.ofFloat x

namespace Settings

/-- Set the least similarity; an integer will do. -/
def setMinSimilarity (s : Settings) : Toml.Value → Option Settings
  | .float x => some { s with minSimilarity := x }
  | .integer n => some { s with minSimilarity := Float.ofInt n }
  | _ => none

/-- Set the number of suggestions. -/
def setMaxSuggestions (s : Settings) : Toml.Value → Option Settings
  | .integer n => if 0 ≤ n then some { s with maxSuggestions := n.toNat } else none
  | _ => none

/-- Set whether other names lead to suggestions. -/
def setBuiltinAliases (s : Settings) : Toml.Value → Option Settings
  | .boolean b => some { s with builtinAliases := b }
  | _ => none

/-- Set one setting by its name. -/
def setNamed (s : Settings) (entry : String × Toml.Value) : Option Settings :=
  if entry.1 == "min_similarity" then s.setMinSimilarity entry.2
  else if entry.1 == "max_suggestions" then s.setMaxSuggestions entry.2
  else if entry.1 == "builtin_aliases" then s.setBuiltinAliases entry.2
  else none

/-- Set the settings by their order. -/
def setInOrder (s : Settings) : List Toml.Value → Option Settings
  | [] => some s
  | [x] => s.setMinSimilarity x
  | [x, n] => do (← s.setMinSimilarity x).setMaxSuggestions n
  | x :: n :: b :: _ => do (← (← s.setMinSimilarity x).setMaxSuggestions n).setBuiltinAliases b

/-- The settings in the table of a document. -/
def ofValue : Toml.Value → Option Settings
  | .table entries => entries.foldlM setNamed default
  | .array items => setInOrder default items
  | _ => none

/-- The settings in the contents of a document. -/
def ofEntries : List (String × Toml.Value) → Option Settings
  | [] => some default
  | [(key, v)] => if key == "suggestions" then ofValue v else none
  | _ => none

/-- The settings in a document. -/
def parse (source : String) : Except SettingsError Settings :=
  match (Toml.parse source).bind ofEntries with
  | none => .error .malformed
  | some s =>
      if 0.0 ≤ s.minSimilarity ∧ s.minSimilarity ≤ 1.0 then .ok s
      else .error (.similarityOutOfRange s.minSimilarity)

end Settings

end Tabula
