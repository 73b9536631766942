/-!
# Edit distance

The least number of edits that turn one text into another, where an edit inserts, deletes or replaces a
character or swaps two neighbours.  Swapped characters may be edited again afterwards, so `ca` is two edits
away from `abc`.

The distance is computed row by row.  Row `i` holds the distances from the first `i` characters of one text
to every initial part of the other.  A swap looks back to the row and the column where the two characters
occurred last.
-/

namespace Tabula.Suggestion

/-- The rows that are finished, and for each character the last row it labels. -/
structure DistanceTable where
  rows : Array (Array Nat)
  lastRow : List (Char × Nat)

namespace DistanceTable

/-- The entry of a finished row. -/
def entry (table : DistanceTable) (row column : Nat) : Nat :=
  (table.rows.getD row #[]).getD column 0

/-- The cost of going through a swap that ends in this row and column: the characters between the swapped
ones are deleted or inserted. -/
def swapCost? (table : DistanceTable) (row column lastRow lastColumn : Nat) : Option Nat :=
  if lastRow = 0 ∨ lastColumn = 0 then none
  else
    some (table.entry (lastRow - 1) (lastColumn - 1) +
      (row - lastRow - 1) + 1 + (column - lastColumn - 1))

/-- The entries of the row labelled `c` from the column `column` on.  `done` holds the entries before, and
`lastColumn` is the last column before that is labelled `c`. -/
def rowFrom (table : DistanceTable) (c : Char) (row : Nat) (done : Array Nat) (column lastColumn : Nat) :
    List Char → Array Nat
  | [] => done
  | d :: rest =>
      let lastRow := (table.lastRow.lookup d).getD 0
      let replaced := table.entry (row - 1) (column - 1) + if c == d then 0 else 1
      let inserted := done.getD (column - 1) 0 + 1
      let deleted := table.entry (row - 1) column + 1
      let best := min replaced (min inserted deleted)
      let best := match table.swapCost? row column lastRow lastColumn with
        | none => best
        | some swapped => min best swapped
      table.rowFrom c row (done.push best) (column + 1) (if c == d then column else lastColumn) rest

/-- Add the rows of the remaining characters `cs`, against the text `other`. -/
def extend (other : List Char) (table : DistanceTable) : List Char → DistanceTable
  | [] => table
  | c :: cs =>
      let row := table.rows.size
      extend other
        ⟨table.rows.push (table.rowFrom c row #[row] 1 0 other), (c, row) :: table.lastRow⟩ cs

end DistanceTable

/-- The edit distance of two texts. -/
def distance (a b : List Char) : Nat :=
  let start : DistanceTable := ⟨#[Array.range (b.length + 1)], []⟩
  (start.extend b a).entry a.length b.length

/-- One for equal texts, zero for texts without anything in common. -/
def similarity (a b : List Char) : Float :=
  1.0 - (distance a b).toFloat / (max a.length b.length).toFloat

end Tabula.Suggestion
