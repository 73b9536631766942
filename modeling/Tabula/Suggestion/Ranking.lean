import Tabula.Name
import Tabula.Settings.Basic
import Tabula.Suggestion.Distance
import Tabula.Text.Lowercase

/-!
# Ranking of suggestions

Suggestions for a name come from a pool of candidates.  A score says how well a candidate fits; candidates
without a score are dropped.  The others are put in order of decreasing score and then of their names, each
replacement is kept where it occurs first, and the list is cut at the limit.

How candidates are scored is up to the caller.  `score` is the usual way.

Scores are ordered by `scoreKey`, a total order of all floating-point numbers in which the positive ones
have their usual order.
-/

namespace Tabula.Suggestion

/-- A name that can be suggested, and what is suggested in its place. -/
structure Candidate (α : Type) where
  name : Name
  replacement : α

/-- How well a candidate fits, from the least similarity of a suggested name, the input and the name of the
candidate. -/
abbrev Score := Float → Name → Name → Option Float

/-- One text occurs inside the other. -/
def occursIn (part : List Char) : List Char → Bool
  | [] => part.isEmpty
  | c :: rest => part.isPrefixOf (c :: rest) || occursIn part rest

/-- How well a candidate fits the input, without regard to case: two for the same text, between one and two
if one text occurs in the other, else the similarity if it is large enough. -/
def score (minSimilarity : Float) (input candidate : Name) : Option Float :=
  if candidate.isEmpty || input.isEmpty then none
  else
    let a := Text.lowercase candidate.toList
    let b := Text.lowercase input.toList
    if a == b then some 2.0
    else
      let s := similarity a b
      if occursIn b a || occursIn a b then some (1.0 + s)
      else if s ≥ minSimilarity then some s
      else none

/-- Floating-point numbers in order: of two numbers the smaller one has the smaller key. -/
def scoreKey (x : Float) : Int :=
  let bits := x.toBits.toNat
  if bits < 9223372036854775808 then bits else 9223372036854775807 - (bits : Int)

/-- The first scored candidate comes before the second one, or may do so. -/
def comesFirst {α : Type} (a b : Float × Candidate α) : Bool :=
  match compare (scoreKey b.1) (scoreKey a.1) with
  | .lt => true
  | .eq => (compare a.2.name b.2.name).isLE
  | .gt => false

/-- The first `limit` distinct replacements, best candidates first. -/
def rankBy {α : Type} [BEq α] (score : Name → Option Float) (limit : Nat)
    (pool : List (Candidate α)) : List α :=
  let scored := pool.filterMap fun c => (score c.name).map fun s => (s, c)
  ((scored.mergeSort comesFirst).map fun c => c.2.replacement).eraseDups.take limit

/-- The suggestions for an input. -/
def rank {α : Type} [BEq α] (score : Score) (settings : Settings) (input : Name)
    (pool : List (Candidate α)) : List α :=
  rankBy (score settings.minSimilarity input) settings.maxSuggestions pool

end Tabula.Suggestion
