/-!
# Settings for suggestions
-/

namespace Tabula

/-- How suggestions are chosen. -/
structure Settings where
  /-- The least similarity of a suggested name, from zero to one. -/
  minSimilarity : Float := 0.6
  /-- The most suggestions that are made at once. -/
  maxSuggestions : Nat := 5
  /-- Whether the names that other systems use for the primitive types lead to a suggestion. -/
  builtinAliases : Bool := true

instance : Inhabited Settings :=
  ⟨⟨0.6, 5, true⟩⟩

end Tabula
