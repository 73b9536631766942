import Tabula.Catalog.Basic
import Tabula.Proofs.Results

/-!
# What can be declared

A declaration is accepted exactly if it meets conditions that can be said without the order in which they are checked.
The name of a tagged type must not be a keyword, while a unit may be named like one.  Tags may have any names, as
long as they are different.  A declaration that is accepted adds one entry and changes nothing else; one that is
refused changes nothing at all, whichever check it fails.

An entry that is declared is put in the place of any other one with its key.  There is never another one, because a
declaration under a key that is taken is refused before.
-/

namespace Tabula

namespace Entry

variable {α : Type} {name : α → Name} {e : Entry name} {entries : List (Entry name)} {key : Name}

/-- Nothing but the value is free in an entry. -/
theorem named_value (e : Entry name) : named e.value = e := by
  obtain ⟨_, _, rfl⟩ := e
  rfl

theorem map_named_value (entries : List (Entry name)) : (entries.map value).map named = entries := by
  rw [List.map_map]
  exact List.map_id'' named_value entries

/-- Keys are names, so values are found by their names. -/
theorem find?_eq : find? key entries = (entries.map value).find? fun a => name a == key := by
  rw [find?, List.find?_map]
  congr 2
  funext e
  rw [e.key_eq]
  rfl

/-- What is found under a key has it as its name. -/
theorem name_of_find? {a : α} (h : find? key entries = some a) : name a = key := by
  rw [find?_eq] at h
  simpa using List.find?_some h

/-- Under a key that is not taken, an entry is put at the end. -/
theorem insert_of_find?_eq_none (h : find? e.key entries = none) : insert e entries = entries ++ [e] := by
  induction entries with
  | nil => rfl
  | cons f entries ih =>
      obtain ⟨hne, hrest⟩ : f.key ≠ e.key ∧ find? e.key entries = none := by simpa [find?] using h
      rw [insert, if_neg (by simpa using hne), ih hrest]
      rfl

end Entry

namespace Declared

variable {γ α β : Type} {c : γ}

/-- A check that is passed leaves the rest to the steps after it. -/
theorem run_check_ok {check : Except DeclarationError α} {rest : α → DeclareM γ β} {a : α} (h : check = .ok a) :
    run (MonadExcept.ofExcept check >>= rest) c = run (rest a) c := by
  subst h
  rfl

/-- A check that is failed ends the declaration with the catalog that it began with. -/
theorem run_check_error {check : Except DeclarationError α} {rest : α → DeclareM γ β} {e : DeclarationError}
    (h : check = .error e) : run (MonadExcept.ofExcept check >>= rest) c = ⟨c, .error e⟩ := by
  subst h
  rfl

theorem run_get_bind {rest : γ → DeclareM γ α} : run (get >>= rest) c = run (rest c) c :=
  rfl

theorem run_modify {f : γ → γ} : run (modify f) c = ⟨f c, .ok ()⟩ :=
  rfl

end Declared

/-- The name can be read where tagged types are named. -/
def Name.IsTypeName (n : Name) : Prop :=
  n.isValid = true ∧ n.isKeyword = false

/-- The conditions on a tagged type that do not depend on what is declared already. -/
structure TaggedType.Declarable (d : TaggedType) : Prop where
  name : d.name.IsTypeName
  params : ∀ p ∈ d.params, p.name.IsTypeName
  distinctParams : (d.params.map Param.name).Nodup
  distinctTags : (d.tags.map Tag.name).Nodup

theorem Name.check_of_isValid {n : Name} (h : n.isValid = true) : Name.check n = .ok n :=
  if_pos h

theorem Name.check_of_not_isValid {n : Name} (h : ¬n.isValid = true) : Name.check n = .error ⟨n⟩ :=
  if_neg h

namespace UnitCatalog

variable {c : UnitCatalog} {name : Name} {description : String}

/-- Units are found by their names. -/
theorem find?_eq : c.find? name = c.units.find? fun u => u.name == name :=
  Entry.find?_eq

/-- The catalog with one unit more. -/
def add (c : UnitCatalog) (u : SingleUnit) : UnitCatalog :=
  { c with entries := c.entries ++ [.named u] }

@[simp] theorem units_add {u : SingleUnit} : (c.add u).units = c.units ++ [u] :=
  List.map_append

theorem declare_of_accepts (hvalid : name.isValid = true) (hnew : c.find? name = none) :
    c.declare name description = ⟨c.add ⟨name, description⟩, .ok ⟨name, description⟩⟩ := by
  have hname : (Name.check name).mapError DeclarationError.invalidName = .ok name :=
    mapError_eq_ok_iff.2 (Name.check_of_isValid hvalid)
  have hinsert : Entry.insert (.named ⟨name, description⟩) c.entries = c.entries ++ [.named ⟨name, description⟩] :=
    Entry.insert_of_find?_eq_none hnew
  rw [declare, declareSteps, Declared.run_check_ok hname, Declared.run_get_bind, hnew, add, ← hinsert]
  rfl

theorem declare_of_not_accepts (description : String) (h : ¬(name.isValid = true ∧ c.find? name = none)) :
    ∃ e, c.declare name description = ⟨c, .error e⟩ := by
  by_cases hvalid : name.isValid = true
  · have hname : (Name.check name).mapError DeclarationError.invalidName = .ok name :=
      mapError_eq_ok_iff.2 (Name.check_of_isValid hvalid)
    rw [declare, declareSteps, Declared.run_check_ok hname, Declared.run_get_bind]
    cases hnew : c.find? name with
    | some _ => exact ⟨_, rfl⟩
    | none => exact absurd ⟨hvalid, hnew⟩ h
  · exact ⟨_, Declared.run_check_error (mapError_eq_error_iff.2 ⟨_, Name.check_of_not_isValid hvalid, rfl⟩)⟩

/-- What holds of a catalog holds after a declaration if it holds with the unit added. -/
theorem declare_preserves {P : UnitCatalog → Prop} (h : P c)
    (hadd : name.isValid = true → c.find? name = none → P (c.add ⟨name, description⟩)) :
    P (c.declare name description).catalog := by
  by_cases haccepts : name.isValid = true ∧ c.find? name = none
  · rw [declare_of_accepts haccepts.1 haccepts.2]
    exact hadd haccepts.1 haccepts.2
  · obtain ⟨e, he⟩ := declare_of_not_accepts description haccepts
    rwa [he]

end UnitCatalog

namespace Catalog

variable {c : Catalog} {type name : Name} {seen : List Name} {d : TaggedType}

/-- Tagged types are found by their names. -/
theorem find?_eq : c.find? name = c.types.find? fun d => d.name == name :=
  Entry.find?_eq

theorem checkName_eq_ok_iff {text : String} : checkName text = .ok name ↔ Name.IsTypeName text ∧ name = text := by
  unfold checkName Name.IsTypeName
  by_cases hvalid : Name.isValid text = true
  · rw [Name.check_of_isValid hvalid]
    cases hkeyword : Name.isKeyword text with
    | true => simp [hkeyword]
    | false => simpa [hkeyword, hvalid] using eq_comm
  · rw [Name.check_of_not_isValid hvalid]
    simp [hvalid]

/-- The names that were seen count as taken. -/
theorem checkParams_eq_ok_iff {params : List Param} :
    checkParams type seen params = .ok () ↔
      (∀ p ∈ params, p.name.IsTypeName) ∧ (params.map Param.name).Nodup ∧ ∀ p ∈ params, p.name ∉ seen := by
  induction params generalizing seen with
  | nil => simp [checkParams]
  | cons p params ih =>
      have hstep : checkParams type seen (p :: params) = .ok () ↔
          p.name.IsTypeName ∧ p.name ∉ seen ∧ checkParams type (p.name :: seen) params = .ok () := by
        rw [checkParams, bind_eq_ok_iff]
        by_cases hseen : p.name ∈ seen <;> simp [hseen, checkName_eq_ok_iff]
      rw [hstep, ih, List.map_cons, List.nodup_cons]
      grind

theorem checkTags_eq_ok_iff {tags : List Tag} :
    checkTags type seen tags = .ok () ↔ (tags.map Tag.name).Nodup ∧ ∀ t ∈ tags, t.name ∉ seen := by
  induction tags generalizing seen with
  | nil => simp [checkTags]
  | cons t tags ih =>
      have hstep : checkTags type seen (t :: tags) = .ok () ↔
          t.name ∉ seen ∧ checkTags type (t.name :: seen) tags = .ok () := by
        rw [checkTags]
        by_cases hseen : t.name ∈ seen <;> simp [hseen]
      rw [hstep, ih, List.map_cons, List.nodup_cons]
      grind

/-- The checks on a tagged type, in the order in which they are made. -/
theorem declarable_iff :
    d.Declarable ↔ checkName d.name = .ok d.name ∧ checkParams d.name [] d.params = .ok () ∧
      checkTags d.name [] d.tags = .ok () := by
  rw [checkName_eq_ok_iff, checkParams_eq_ok_iff, checkTags_eq_ok_iff]
  constructor
  · intro hd
    exact ⟨⟨hd.name, rfl⟩, ⟨hd.params, hd.distinctParams, by simp⟩, hd.distinctTags, by simp⟩
  · rintro ⟨⟨hname, -⟩, ⟨hparams, hdistinct, -⟩, htags, -⟩
    exact ⟨hname, hparams, hdistinct, htags⟩

/-- A name that is accepted is the key of the entry. -/
theorem declareSteps_of_checkName (h : checkName d.name = .ok d.name) :
    declareSteps d = (do
      if ((← get).find? d.name).isSome then throw (.duplicateType d.name)
      MonadExcept.ofExcept (checkParams d.name [] d.params)
      MonadExcept.ofExcept (checkTags d.name [] d.tags)
      modify fun c => { c with entries := Entry.insert (.named d) c.entries }) := by
  unfold declareSteps
  split
  · rename_i e he
    cases h.symm.trans he
  · rename_i name hname
    obtain rfl := eq_of_checkName hname
    rfl

/-- The catalog with one tagged type more. -/
def addType (c : Catalog) (d : TaggedType) : Catalog :=
  { c with entries := c.entries ++ [.named d] }

@[simp] theorem types_addType : (c.addType d).types = c.types ++ [d] :=
  List.map_append

theorem declare_of_accepts (hd : d.Declarable) (hnew : c.find? d.name = none) :
    c.declare d = ⟨c.addType d, .ok ()⟩ := by
  obtain ⟨hname, hparams, htags⟩ := declarable_iff.1 hd
  have hinsert : Entry.insert (.named d) c.entries = c.entries ++ [.named d] := Entry.insert_of_find?_eq_none hnew
  rw [declare, declareSteps_of_checkName hname, Declared.run_get_bind, hnew]
  refine (Declared.run_check_ok hparams).trans ((Declared.run_check_ok htags).trans ?_)
  rw [Declared.run_modify, addType, hinsert]

/-- The entry is added after all checks, so it does not matter which of them is failed. -/
theorem declare_of_not_accepts (h : ¬(d.Declarable ∧ c.find? d.name = none)) :
    ∃ e, c.declare d = ⟨c, .error e⟩ := by
  cases hname : checkName d.name with
  | error e =>
      refine ⟨e, ?_⟩
      rw [declare, declareSteps]
      split
      · rename_i he
        cases hname.symm.trans he
        rfl
      · rename_i he
        cases hname.symm.trans he
  | ok name =>
      obtain rfl := eq_of_checkName hname
      rw [declare, declareSteps_of_checkName hname, Declared.run_get_bind]
      cases hnew : c.find? d.name with
      | some _ => exact ⟨_, rfl⟩
      | none =>
          cases hparams : checkParams d.name [] d.params with
          | error e => exact ⟨e, rfl⟩
          | ok _ =>
              cases htags : checkTags d.name [] d.tags with
              | error e => exact ⟨e, rfl⟩
              | ok _ => exact absurd ⟨declarable_iff.2 ⟨hname, hparams, htags⟩, hnew⟩ h

end Catalog

/-- What can be declared. -/
inductive Declaration where
  | type (d : TaggedType)
  | unit (name : Name) (description : String)

/-- The unit that is given back when it is declared. -/
def Declaration.unit? : Declaration → Option SingleUnit
  | type _ => none
  | unit name description => some ⟨name, description⟩

namespace Catalog

variable {c : Catalog} {d : Declaration}

/-- Declare something. -/
def tryDeclare (c : Catalog) : Declaration → Declared Catalog (Option SingleUnit)
  | .type d => ⟨(c.declare d).catalog, (c.declare d).result.map fun _ => none⟩
  | .unit name description =>
      ⟨(c.declareUnit name description).catalog, (c.declareUnit name description).result.map some⟩

/-- The conditions on a declaration. -/
def Accepts (c : Catalog) : Declaration → Prop
  | .type d => d.Declarable ∧ c.find? d.name = none
  | .unit name _ => name.isValid = true ∧ c.units.find? name = none

/-- The catalog with one entry more. -/
def add (c : Catalog) : Declaration → Catalog
  | .type d => c.addType d
  | .unit name description => { c with units := c.units.add ⟨name, description⟩ }

theorem tryDeclare_of_accepts (h : c.Accepts d) : c.tryDeclare d = ⟨c.add d, .ok d.unit?⟩ := by
  cases d with
  | type d =>
      rw [tryDeclare, declare_of_accepts h.1 h.2]
      rfl
  | unit name description =>
      rw [tryDeclare, declareUnit, UnitCatalog.declare_of_accepts h.1 h.2]
      rfl

theorem tryDeclare_of_not_accepts (h : ¬c.Accepts d) : ∃ e, c.tryDeclare d = ⟨c, .error e⟩ := by
  cases d with
  | type d =>
      obtain ⟨e, he⟩ := declare_of_not_accepts h
      exact ⟨e, by rw [tryDeclare, he]; rfl⟩
  | unit name description =>
      obtain ⟨e, he⟩ := UnitCatalog.declare_of_not_accepts description h
      exact ⟨e, by rw [tryDeclare, declareUnit, he]; rfl⟩

/-- The catalog after a declaration, be it accepted or refused. -/
def afterDeclaration (c : Catalog) (d : Declaration) : Catalog :=
  (c.tryDeclare d).catalog

/-- The catalog after a sequence of declarations, each of which may be refused. -/
def afterDeclarations (c : Catalog) (ds : List Declaration) : Catalog :=
  ds.foldl afterDeclaration c

theorem afterDeclaration_of_accepts (h : c.Accepts d) : c.afterDeclaration d = c.add d := by
  rw [afterDeclaration, tryDeclare_of_accepts h]

theorem afterDeclaration_of_not_accepts (h : ¬c.Accepts d) : c.afterDeclaration d = c := by
  obtain ⟨e, he⟩ := tryDeclare_of_not_accepts h
  rw [afterDeclaration, he]

/-- What holds of a catalog holds after a declaration if it holds with the entry added. -/
theorem afterDeclaration_preserves {P : Catalog → Prop} (h : P c) (hadd : c.Accepts d → P (c.add d)) :
    P (c.afterDeclaration d) := by
  by_cases hd : c.Accepts d
  · rw [afterDeclaration_of_accepts hd]
    exact hadd hd
  · rwa [afterDeclaration_of_not_accepts hd]

end Catalog

end Tabula
