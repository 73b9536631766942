import Tabula.Proofs.CatalogInvariant
import Tabula.Proofs.SuggestionOrder
import Tabula.Proofs.UnitLookups

/-!
# The order of declarations

A catalog keeps what is declared in the order of the declarations, and nobody can tell.  Names are different, so a
lookup finds the same wherever the entry stands, and the suggestions for a name that is not found are sorted by scores
and names.  Two catalogs that differ in the order of their entries only give the same for every text and every type,
errors and suggestions included.

Suggestions for types have the builtin types in front of the declared ones.  A declared type may have the name under
which a builtin type is suggested, but the two are always met in the same order.
-/

namespace Tabula

/-- With distinct keys, entries are found in any order. -/
theorem find?_perm {α κ : Type} [BEq κ] [LawfulBEq κ] {key : α → κ} {xs ys : List α} (h : xs.Perm ys)
    (hxs : (xs.map key).Nodup) (k : κ) : xs.find? (fun x => key x == k) = ys.find? fun x => key x == k := by
  have hys : (ys.map key).Nodup := (h.map key).nodup_iff.1 hxs
  refine Option.ext fun a => ?_
  rw [find?_eq_some_iff_of_nodup hxs, find?_eq_some_iff_of_nodup hys, h.mem_iff]

/-- The suggestions from entries with distinct names do not depend on the order of the entries. -/
theorem Suggestion.rankBy_map_perm {α β : Type} [BEq β] (score : Name → Option Float) (limit : Nat)
    (front : List (Candidate β)) {name : α → Name} {xs ys : List α} (h : xs.Perm ys) (hxs : (xs.map name).Nodup)
    (replacement : α → β) :
    rankBy score limit (front ++ xs.map fun x => ⟨name x, replacement x⟩) =
      rankBy score limit (front ++ ys.map fun x => ⟨name x, replacement x⟩) := by
  refine rankBy_perm score limit front (h.map _) ?_
  rwa [List.map_map]

namespace UnitCatalog

variable {c c' : UnitCatalog}

/-- The same units in another order, with the same settings and scores. -/
structure Reordered (c c' : UnitCatalog) : Prop where
  units : c.units.Perm c'.units
  settings : c.settings = c'.settings
  score : c.score = c'.score

theorem Reordered.answersAlike (h : c.Reordered c') (hc : c.Consistent) : c.AnswersAlike c' := by
  intro name
  have hfind : c.find? name = c'.find? name := by
    rw [find?_eq, find?_eq]
    exact find?_perm h.units hc.distinct name
  have hsuggest : c.suggest name = c'.suggest name := by
    rw [suggest, suggest, ← h.settings, ← h.score]
    exact Suggestion.rankBy_map_perm _ _ [] h.units hc.distinct SingleUnit.name
  rw [get, get, hfind, hsuggest]

end UnitCatalog

namespace Catalog

variable {c c' : Catalog}

/-- The same types and units in another order, with the same settings and scores. -/
structure Reordered (c c' : Catalog) : Prop where
  types : c.types.Perm c'.types
  units : c.units.Reordered c'.units
  settings : c.settings = c'.settings
  score : c.score = c'.score

/-- Settings and scores for types and for units. -/
def ranking (c : Catalog) : (Settings × Suggestion.Score) × Settings × Suggestion.Score :=
  ((c.settings, c.score), c.units.settings, c.units.score)

/-- Declarations do not change how suggestions are made. -/
theorem ranking_afterDeclarations (c : Catalog) (ds : List Declaration) :
    (c.afterDeclarations ds).ranking = c.ranking := by
  induction ds generalizing c with
  | nil => rfl
  | cons d ds ih =>
      refine (ih _).trans (afterDeclaration_preserves (P := fun c' => c'.ranking = c.ranking) rfl fun _ => ?_)
      cases d <;> rfl

/-- Entries are determined by their values. -/
theorem Reordered.entries (h : c.Reordered c') : c.entries.Perm c'.entries := by
  rw [← Entry.map_named_value c.entries, ← Entry.map_named_value c'.entries]
  exact h.types.map _

theorem Consistent.distinctKeys (hc : c.Consistent) : (c.entries.map Entry.key).Nodup := by
  have hkeys : c.entries.map Entry.key = c.types.map TaggedType.name := by
    rw [types, List.map_map]
    exact List.map_congr_left fun e _ => e.key_eq
  rw [hkeys]
  exact hc.distinct

theorem Reordered.suggestForName_eq (h : c.Reordered c') (hc : c.Consistent) (name : Name) :
    c.suggestForName name = c'.suggestForName name := by
  rw [suggestForName, suggestForName, ← h.settings, ← h.score]
  exact Suggestion.rankBy_map_perm _ _ _ h.entries hc.distinctKeys fun e => Scheme.ident e.key

theorem Reordered.suggestForTagged_eq (h : c.Reordered c') (hc : c.Consistent) (name : Name)
    (args : List (Arg UnitScheme Scheme)) : c.suggestForTagged name args = c'.suggestForTagged name args := by
  rw [suggestForTagged, suggestForTagged, ← h.settings, ← h.score]
  exact Suggestion.rankBy_map_perm _ _ [] h.entries hc.distinctKeys fun e => Scheme.apply e.key args

theorem Reordered.suggestions_eq (h : c.Reordered c') (hc : c.Consistent) (part : Unresolved) :
    part.suggestions c = part.suggestions c' := by
  cases part with
  | name n => exact h.suggestForName_eq hc n
  | tagged n args => exact h.suggestForTagged_eq hc n args
  | openRecord fields => rfl

theorem Reordered.groundTagged_eq (h : c.Reordered c') (hc : c.Consistent) (name : Name)
    (values : List (Arg Measure GroundType)) (part : Unresolved) :
    Scheme.groundTagged c name values part = Scheme.groundTagged c' name values part := by
  have hfind : c.find? name = c'.find? name := by
    rw [find?_eq, find?_eq]
    exact find?_perm h.types hc.distinct name
  have hlookup : c.lookup name values = c'.lookup name values := by rw [lookup, lookup, hfind]
  rw [Scheme.groundTagged, Scheme.groundTagged, hlookup, h.suggestions_eq hc]

theorem groundFieldType_eq (hc : c.Consistent) (hc' : c'.Consistent) (required : Bool) (d : GroundType) :
    Scheme.groundFieldType c required d = Scheme.groundFieldType c' required d := by
  have hwrap : c.wrap d = c'.wrap d := by rw [wrap, wrap, hc.wrapper, hc'.wrapper]
  rw [Scheme.groundFieldType, Scheme.groundFieldType, hwrap]

/-- Two catalogs with the same entries and settings read every text alike, find the same units and make the same of
every type, be it a result or an error with its suggestions, however candidates are scored.  Suggestions from the
entries would also be the same if candidates had other scores, if others came in front of them and if something else
were suggested in their places. -/
theorem answers_of_reordered (hc : c.Built) (hc' : c'.Built) (h : c.Reordered c') :
    ((∀ source, Scheme.parse c.units source = Scheme.parse c'.units source) ∧
        ∀ source, UnitScheme.parse c.units source = UnitScheme.parse c'.units source) ∧
      (∀ name, c.units.get name = c'.units.get name) ∧
      (∀ (s : Substitution) (t : Scheme), t.toGround s c = t.toGround s c') ∧
      ∀ (α : Type) [BEq α] (score : Name → Option Float) (limit : Nat) (front : List (Suggestion.Candidate α)),
        (∀ replacement : TaggedType → α,
          Suggestion.rankBy score limit (front ++ c.types.map fun d => ⟨d.name, replacement d⟩) =
            Suggestion.rankBy score limit (front ++ c'.types.map fun d => ⟨d.name, replacement d⟩)) ∧
          ∀ replacement : SingleUnit → α,
            Suggestion.rankBy score limit (front ++ c.units.units.map fun u => ⟨u.name, replacement u⟩) =
              Suggestion.rankBy score limit (front ++ c'.units.units.map fun u => ⟨u.name, replacement u⟩) := by
  have hcons := hc.consistent
  have hunits := h.units.answersAlike hcons.units
  refine ⟨⟨Scheme.parse_congr hunits, UnitScheme.parse_congr hunits⟩, hunits, fun s t => ?_,
    fun α _ score limit front => ⟨?_, ?_⟩⟩
  · exact Scheme.toGround_related stepwise_eq (h.groundTagged_eq hcons)
      (groundFieldType_eq hcons hc'.consistent) t
  · exact Suggestion.rankBy_map_perm score limit front h.types hcons.distinct
  · exact Suggestion.rankBy_map_perm score limit front h.units.units hcons.units.distinct

/-- A type has the name under which a builtin type is suggested, and a unit has the name of a builtin type.  The text
and the type are close to what is declared. -/
theorem answers_of_reordered_of_alias_names :
    let text : TaggedType := ⟨"text", [], []⟩
    let box : TaggedType := ⟨"Box", [⟨.type, "a"⟩], []⟩
    let ds : List Declaration := [.type text, .unit "mile" "mile", .type box, .unit "Date" "day"]
    let ds' : List Declaration := [.unit "Date" "day", .type box, .type text, .unit "mile" "mile"]
    let c := builtin.afterDeclarations ds
    let c' := builtin.afterDeclarations ds'
    (c.types = [optional, text, box] ∧ c'.types = [optional, box, text]) ∧
      c.Reordered c' ∧
      Scheme.parse c.units "Number{mil*date}" = Scheme.parse c'.units "Number{mil*date}" ∧
      c.units.get "mil" = c'.units.get "mil" ∧
      (Scheme.ident "txt").toGround .empty c = (Scheme.ident "txt").toGround .empty c' := by
  intro text box ds ds' c c'
  have htypes : c.types = [optional, text, box] := by
    simp only [c, ds, text, box]
    rfl
  have htypes' : c'.types = [optional, box, text] := by
    simp only [c', ds', text, box]
    rfl
  have hunits : c.units.units = UnitCatalog.builtinUnits ++ [⟨"mile", "mile"⟩, ⟨"Date", "day"⟩] := by
    simp only [c, ds, text, box]
    rfl
  have hunits' : c'.units.units = UnitCatalog.builtinUnits ++ [⟨"Date", "day"⟩, ⟨"mile", "mile"⟩] := by
    simp only [c', ds', text, box]
    rfl
  have hranking : c.ranking = c'.ranking :=
    (ranking_afterDeclarations builtin ds).trans (ranking_afterDeclarations builtin ds').symm
  obtain ⟨⟨hsettings, hscore⟩, hunitSettings, hunitScore⟩ := by simpa [ranking] using hranking
  have hreordered : c.Reordered c' := by
    refine ⟨?_, ⟨?_, hunitSettings, hunitScore⟩, hsettings, hscore⟩
    · rw [htypes, htypes']
      exact .cons _ (.swap _ _ _)
    · rw [hunits, hunits']
      exact .append_left _ (.swap _ _ _)
  obtain ⟨⟨hparse, -⟩, hget, hground, -⟩ := answers_of_reordered (built_builtin.afterDeclarations ds)
    (built_builtin.afterDeclarations ds') hreordered
  exact ⟨⟨htypes, htypes'⟩, hreordered, hparse _, hget _, hground _ _⟩

end Catalog

end Tabula
