import Mathlib.Data.List.Induction
import Mathlib.Data.List.Nodup
import Tabula.Proofs.LaterDeclarations
import Tabula.Proofs.Printable

/-!
# What holds of every catalog

A catalog comes about by declarations, some of which may be refused.  In every such catalog a definition is found
under its own name and under no other one, all names can be written, and the wrapper of optional fields is the type
that is declared under its name.  A declaration either adds its entry at the end or leaves the catalog as it was, so
entries are never changed or taken away.

What a tagged type is defined as is not looked at.  The types that its tags carry may name types that are not
declared.
-/

namespace Tabula

/-- With distinct keys, the entry under a key is the only one. -/
theorem find?_eq_some_iff_of_nodup {α κ : Type} [BEq κ] [LawfulBEq κ] {key : α → κ} {xs : List α} {k : κ} {a : α}
    (hxs : (xs.map key).Nodup) : xs.find? (fun x => key x == k) = some a ↔ a ∈ xs ∧ key a = k := by
  constructor
  · intro h
    exact ⟨List.mem_of_find?_eq_some h, by simpa using List.find?_some h⟩
  · rintro ⟨ha, rfl⟩
    have hsome : (xs.find? fun x => key x == key a).isSome = true := List.find?_isSome.2 ⟨a, ha, by simp⟩
    obtain ⟨b, hb⟩ := Option.isSome_iff_exists.1 hsome
    have hkey : key b = key a := by simpa using List.find?_some hb
    rw [hb, List.inj_on_of_nodup_map hxs (List.mem_of_find?_eq_some hb) ha hkey]

/-- An entry under a key that is not taken can be added. -/
theorem nodup_append_of_find?_eq_none {α κ : Type} [BEq κ] [LawfulBEq κ] {key : α → κ} {xs : List α} {a : α}
    (hxs : (xs.map key).Nodup) (h : xs.find? (fun x => key x == key a) = none) : ((xs ++ [a]).map key).Nodup := by
  have hnew : key a ∉ xs.map key := by simpa using h
  rw [List.map_append, List.map_singleton]
  exact List.nodup_append'.2 ⟨hxs, List.nodup_singleton _, by simpa using hnew⟩

namespace UnitCatalog

variable {c : UnitCatalog}

/-- Every unit has a name that can be written, and no two have the same. -/
structure Consistent (c : UnitCatalog) : Prop where
  isValid : ∀ u ∈ c.units, u.name.isValid = true
  distinct : (c.units.map SingleUnit.name).Nodup

theorem Consistent.add (hc : c.Consistent) {u : SingleUnit} (hvalid : u.name.isValid = true)
    (hnew : c.find? u.name = none) : (c.add u).Consistent where
  isValid := by
    rw [units_add]
    exact List.forall_mem_append.2 ⟨hc.isValid, List.forall_mem_singleton.2 hvalid⟩
  distinct := by
    rw [units_add]
    exact nodup_append_of_find?_eq_none hc.distinct (find?_eq ▸ hnew)

theorem Consistent.find?_eq_some_iff (hc : c.Consistent) {name : Name} {u : SingleUnit} :
    c.find? name = some u ↔ u ∈ c.units ∧ u.name = name := by
  rw [find?_eq]
  exact find?_eq_some_iff_of_nodup hc.distinct

theorem Built.consistent (h : c.Built) : c.Consistent := by
  induction h with
  | empty => exact ⟨by simp [units], by simp [units]⟩
  | declare _ name description ih => exact declare_preserves ih fun hvalid hnew => ih.add hvalid hnew

/-- The units can be declared one after the other. -/
theorem Consistent.built (hc : c.Consistent) : c.Built := by
  obtain ⟨entries, settings, score⟩ := c
  induction entries using List.reverseRecOn with
  | nil => exact .empty settings score
  | append_singleton entries e ih =>
      obtain ⟨hvalid, hdistinct⟩ := hc
      simp only [units, List.map_append, List.map_singleton, List.forall_mem_append, List.forall_mem_singleton,
        List.nodup_append'] at hvalid hdistinct
      have hnew : find? ⟨entries, settings, score⟩ e.value.name = none := by
        rw [find?_eq]
        simpa [units] using hdistinct.2.2
      have hbuilt := (ih ⟨hvalid.1, hdistinct.1⟩).declare e.value.name e.value.description
      rw [declare_of_accepts hvalid.2 hnew] at hbuilt
      rw [← Entry.named_value e]
      exact hbuilt

theorem consistent_builtin : builtin.Consistent :=
  ⟨by decide, by decide⟩

end UnitCatalog

namespace Catalog

variable {c c' : Catalog} {d : Declaration}

/-- Definitions have their conditions and different names, and the wrapper of optional fields is one of them. -/
structure Consistent (c : Catalog) : Prop where
  declarable : ∀ d ∈ c.types, d.Declarable
  distinct : (c.types.map TaggedType.name).Nodup
  optional : optional ∈ c.types
  wrapper : c.wrapper = Catalog.optional
  units : c.units.Consistent

theorem Consistent.find?_eq_some_iff (hc : c.Consistent) {name : Name} {d : TaggedType} :
    c.find? name = some d ↔ d ∈ c.types ∧ d.name = name := by
  rw [find?_eq]
  exact find?_eq_some_iff_of_nodup hc.distinct

theorem optional_declarable : optional.Declarable where
  name := ⟨rfl, rfl⟩
  params := List.forall_mem_singleton.2 ⟨rfl, rfl⟩
  distinctParams := by decide
  distinctTags := by decide

theorem consistent_empty : empty.Consistent where
  declarable := List.forall_mem_singleton.2 optional_declarable
  distinct := List.nodup_singleton _
  optional := List.mem_singleton.2 rfl
  wrapper := rfl
  units := (UnitCatalog.Built.empty default Suggestion.score).consistent

theorem Consistent.add (hc : c.Consistent) (hd : c.Accepts d) : (c.add d).Consistent := by
  cases d with
  | type d =>
      obtain ⟨hd, hnew⟩ := hd
      have htypes : (c.add (.type d)).types = c.types ++ [d] := types_addType
      exact {
        declarable := by
          rw [htypes]
          exact List.forall_mem_append.2 ⟨hc.declarable, List.forall_mem_singleton.2 hd⟩
        distinct := by
          rw [htypes]
          exact nodup_append_of_find?_eq_none hc.distinct (find?_eq ▸ hnew)
        optional := by
          rw [htypes]
          exact List.mem_append_left _ hc.optional
        wrapper := hc.wrapper
        units := hc.units }
  | unit name description =>
      obtain ⟨hvalid, hnew⟩ := hd
      exact { hc with units := hc.units.add hvalid hnew }

/-- The keys are names that can be declared. -/
theorem Consistent.key (hc : c.Consistent) {e : Entry TaggedType.name} (he : e ∈ c.entries) :
    e.key = e.value.name ∧ e.key.IsTypeName := by
  refine ⟨e.key_eq, ?_⟩
  rw [e.key_eq]
  exact (hc.declarable _ (List.mem_map_of_mem he)).name

theorem Consistent.unitKey (hc : c.Consistent) {e : Entry SingleUnit.name} (he : e ∈ c.units.entries) :
    e.key = e.value.name ∧ e.key.isValid = true := by
  refine ⟨e.key_eq, ?_⟩
  rw [e.key_eq]
  exact hc.units.isValid _ (List.mem_map_of_mem he)

/-- A catalog that comes about by declarations, some of which may be refused.  Units, settings and scores can be
exchanged at any time. -/
inductive Built : Catalog → Prop where
  | empty : Built empty
  | units {c : Catalog} {units : UnitCatalog} (h : Built c) (hunits : units.Built) : Built { c with units := units }
  | settings {c : Catalog} (h : Built c) (settings : Settings) : Built { c with settings := settings }
  | score {c : Catalog} (h : Built c) (score : Suggestion.Score) : Built { c with score := score }
  | declare {c : Catalog} (h : Built c) (d : TaggedType) : Built (c.declare d).catalog

theorem Built.consistent (h : c.Built) : c.Consistent := by
  induction h with
  | empty => exact consistent_empty
  | units _ hunits ih => exact { ih with units := hunits.consistent }
  | settings _ _ ih => exact { ih with }
  | score _ _ ih => exact { ih with }
  | declare _ d ih => exact afterDeclaration_preserves (d := .type d) ih fun hd => ih.add hd

theorem built_builtin : builtin.Built := by
  have hunits := UnitCatalog.consistent_builtin
  exact .units .empty (UnitCatalog.Consistent.built ⟨hunits.isValid, hunits.distinct⟩)

theorem Built.afterDeclaration (hc : c.Built) (d : Declaration) : (c.afterDeclaration d).Built := by
  cases d with
  | type d => exact hc.declare d
  | unit name description => exact hc.units (hc.consistent.units.built.declare name description)

theorem Built.afterDeclarations (hc : c.Built) (ds : List Declaration) : (c.afterDeclarations ds).Built := by
  induction ds generalizing c with
  | nil => exact hc
  | cons d ds ih => exact ih (hc.afterDeclaration d)

/-- After any declarations, accepted or refused, the catalog is consistent, keys are the names of what is declared
under them, types and units are found under their own names and under no others, and whatever is declared stays as it
is.  One declaration more is accepted exactly under its conditions and then adds its entry, and otherwise it fails and
leaves the catalog behind that it found. -/
theorem invariant_afterDeclarations {start : Catalog} (hstart : start = empty ∨ start = builtin)
    (ds : List Declaration) :
    let c := start.afterDeclarations ds
    c.Consistent ∧
      ((∀ e ∈ c.entries, e.key = e.value.name ∧ e.key.IsTypeName) ∧
        ∀ e ∈ c.units.entries, e.key = e.value.name ∧ e.key.isValid = true) ∧
      (∀ name d, c.find? name = some d ↔ d ∈ c.types ∧ d.name = name) ∧
      (∀ name u, c.units.find? name = some u ↔ u ∈ c.units.units ∧ u.name = name) ∧
      (∀ more, c.Grows (c.afterDeclarations more)) ∧
      ∀ d, (c.Accepts d ∧ (c.tryDeclare d).result = .ok d.unit? ∧ (c.tryDeclare d).catalog = c.add d) ∨
        (¬c.Accepts d ∧ (∃ e, (c.tryDeclare d).result = .error e) ∧ (c.tryDeclare d).catalog = c) := by
  intro c
  have hc : c.Consistent := by
    rcases hstart with rfl | rfl
    · exact (Built.empty.afterDeclarations ds).consistent
    · exact (built_builtin.afterDeclarations ds).consistent
  refine ⟨hc, ⟨fun _ => hc.key, fun _ => hc.unitKey⟩, fun _ _ => hc.find?_eq_some_iff,
    fun _ _ => hc.units.find?_eq_some_iff, c.grows_afterDeclarations, fun d => ?_⟩
  by_cases hd : c.Accepts d
  · rw [tryDeclare_of_accepts hd]
    exact .inl ⟨hd, rfl, rfl⟩
  · obtain ⟨e, he⟩ := tryDeclare_of_not_accepts hd
    rw [he]
    exact .inr ⟨hd, ⟨e, rfl⟩, rfl⟩

/-- A tagged type is refused for its name, for a parameter and for a tag before it is declared, and then it is refused
as a duplicate.  A unit is declared under the name of a builtin type. -/
theorem invariant_afterDeclarations_of_refused :
    let pair (params : List Name) (tags : List Name) : TaggedType :=
      ⟨"Pair", params.map (⟨.type, ·⟩), tags.map (⟨·, some (.ident "a")⟩)⟩
    let declared := pair ["a", "b"] ["Fst", "Snd"]
    let ds : List Declaration := [.type ⟨"Text", [], []⟩, .type (pair ["a", "a"] []), .type (pair ["a", "Date"] []),
      .type (pair ["a", "b"] ["Fst", "Fst"]), .unit "m" "mile", .unit "2m" "", .type declared, .unit "Date" "day"]
    let c := builtin.afterDeclarations ds
    (c.types = [optional, declared] ∧ c.units.units = UnitCatalog.builtinUnits ++ [⟨"Date", "day"⟩]) ∧
      c.Consistent ∧
      (∀ e ∈ c.entries, e.key = e.value.name ∧ e.key.IsTypeName) ∧
      c.find? "Pair" = some declared ∧
      c.units.find? "Date" = some ⟨"Date", "day"⟩ ∧
      (c.afterDeclarations ds).find? "Pair" = some declared ∧
      (∃ e, (c.tryDeclare (.type declared)).result = .error e) ∧ (c.tryDeclare (.type declared)).catalog = c := by
  intro pair declared ds c
  obtain ⟨hc, ⟨hkeys, -⟩, hfind, hfindUnit, hmore, hnext⟩ := invariant_afterDeclarations (.inr rfl) ds
  have htypes : c.types = [optional, declared] := by
    simp only [c, ds, declared, pair]
    rfl
  have hunits : c.units.units = UnitCatalog.builtinUnits ++ [⟨"Date", "day"⟩] := by
    simp only [c, ds, declared, pair]
    rfl
  have hpair : c.find? "Pair" = some declared := (hfind _ _).2 ⟨by rw [htypes]; simp, rfl⟩
  have hdate : c.units.find? "Date" = some ⟨"Date", "day"⟩ := (hfindUnit _ _).2 ⟨by rw [hunits]; simp, rfl⟩
  have hlater := (hmore ds).types _ _ hpair
  have hrefused : ¬c.Accepts (.type declared) := fun h => by cases hpair.symm.trans h.2
  obtain ⟨haccepts, -⟩ | ⟨-, herror, hsame⟩ := hnext (.type declared)
  · exact absurd haccepts hrefused
  · exact ⟨⟨htypes, hunits⟩, hc, hkeys, hpair, hdate, hlater, herror, hsame⟩

end Catalog

end Tabula
