/-!
# Ranges of characters

A class of characters is given by the ranges of their numbers, in ascending order.
-/

namespace Tabula.Text

/-- The character lies in one of the ranges, whose ends belong to them. -/
def inRanges (ranges : List (Nat × Nat)) (c : Char) : Bool :=
  ranges.any fun (first, last) => first ≤ c.toNat ∧ c.toNat ≤ last

end Tabula.Text
