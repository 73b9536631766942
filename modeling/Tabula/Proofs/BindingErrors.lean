import Tabula.Proofs.Lowering

/-!
# What can be wrong with the bindings of a written type

A written type becomes a term when its variables are replaced.  `Scheme.BecomesTerm` says which term that is, one kind
of type at a time: the term is built like the type, with the same names, flags and kinds of arguments.  Only the names
that stand for types are different, because a name that has a value is replaced by it.

Nothing is looked up in a catalog, so a name without a value is no error; it becomes a tagged type without arguments.
All that can be wrong is that a variable is not bound in the way it is used.  A name is used as a type where it stands
alone, a unit variable is used as a unit, and the names of fields and of applied tagged types are not variables at all.
-/

namespace Tabula

open List (Forall₂)

/-- The error is that of an atom. -/
theorem Product.exists_atom_of_bindM_eq_error {ε α β : Type} [Ord α] [Ord β] [Std.TransOrd β] {u : Product α}
    {f : α → Except ε (Product β)} {e : ε} (h : u.bindM f = .error e) : ∃ a ∈ u.atoms, f a = .error e := by
  rcases bind_eq_error_iff.1 h with hvalues | ⟨values, -, h⟩
  · obtain ⟨g, hg, herror⟩ := exists_of_mapM_eq_error hvalues
    refine ⟨g.1, mem_atoms_of_mem hg, ?_⟩
    rcases bind_eq_error_iff.1 herror with herror | ⟨_, -, herror⟩
    · exact herror
    · cases herror
  · cases h

namespace Scheme

variable {b : TermBindings} {t : Scheme} {e : Term}

/-- The term that the written type becomes when its variables are replaced. -/
inductive BecomesTerm (b : TermBindings) : Scheme → Term → Prop where
  | primitive (p : Primitive) : BecomesTerm b (.primitive p) (.primitive p)
  | number {u : UnitScheme} {v : UnitTerm} (h : UnitScheme.toTerm b u = .ok v) :
      BecomesTerm b (.number u) (.number v)
  /-- A type variable gives way to its value. -/
  | bound {name : Name} {t : Term} (h : b.get? name = some (.type t)) : BecomesTerm b (.ident name) t
  /-- Any other name is taken for a tagged type. -/
  | unbound {name : Name} (h : b.get? name = none) : BecomesTerm b (.ident name) (.tagged name [])
  | apply {name : Name} {args : List (Arg UnitScheme Scheme)} {args' : List (Arg UnitTerm Term)}
      (h : Forall₂ (Arg.Agree (fun u v => UnitScheme.toTerm b u = .ok v) (BecomesTerm b)) args args') :
      BecomesTerm b (.apply name args) (.tagged name args')
  | record {fields : List (Field Scheme)} {fields' : List (Field Term)} {complete : Bool}
      (hnames : fields.map Field.name = fields'.map Field.name)
      (htypes : Forall₂ (BecomesTerm b) (fields.map Field.type) (fields'.map Field.type))
      (hrequired : fields.map Field.required = fields'.map Field.required) :
      BecomesTerm b (.record fields complete) (.record fields' complete)
  | array {t : Scheme} {e : Term} (h : BecomesTerm b t e) : BecomesTerm b (.array t) (.array e)
  | function {params : List Scheme} {params' : List Term} {result : Scheme} {result' : Term}
      (hparams : Forall₂ (BecomesTerm b) params params') (hresult : BecomesTerm b result result') :
      BecomesTerm b (.function params result) (.function params' result')

section Outcome

theorem toTerm_ident_eq_ok_iff {name : Name} :
    (ident name).toTerm b = .ok e ↔ b.get? name = some (.type e) ∨ b.get? name = none ∧ e = .tagged name [] := by
  rw [toTerm, map_eq_ok_iff]
  constructor
  · rintro ⟨value, hvalue, rfl⟩
    cases value with
    | none => exact .inr ⟨Bindings.typeVar_eq_ok_none_iff.1 hvalue, rfl⟩
    | some t => exact .inl (Bindings.typeVar_eq_ok_some_iff.1 hvalue)
  · rintro (h | ⟨h, rfl⟩)
    · exact ⟨some e, Bindings.typeVar_eq_ok_some_iff.2 h, rfl⟩
    · exact ⟨none, Bindings.typeVar_eq_ok_none_iff.2 h, rfl⟩

/-- The rules say what replacing the variables gives, and when it gives something. -/
theorem toTerm_eq_ok_iff : t.toTerm b = .ok e ↔ BecomesTerm b t e := by
  induction t using induction_on_children generalizing e with
  | step t ih =>
      cases t with
      | primitive p =>
          constructor
          · rintro ⟨⟩
            exact .primitive p
          · rintro ⟨⟩
            rfl
      | number u =>
          rw [toTerm, map_eq_ok_iff]
          constructor
          · rintro ⟨v, hv, rfl⟩
            exact .number hv
          · rintro ⟨⟩
            exact ⟨_, by assumption, rfl⟩
      | ident name =>
          rw [toTerm_ident_eq_ok_iff]
          constructor
          · rintro (h | ⟨h, rfl⟩)
            · exact .bound h
            · exact .unbound h
          · intro h
            cases h with
            | bound h => exact .inl h
            | unbound h => exact .inr ⟨h, rfl⟩
      | apply name args =>
          -- Lists are lowered member by member, so what is known about the members is enough.
          have hargs : ∀ args', toTermArgs b args = .ok args' ↔
              Forall₂ (Arg.Agree (fun u v => UnitScheme.toTerm b u = .ok v) (BecomesTerm b)) args args' := by
            refine fun args' => toTermArgs_eq_ok_iff.trans (forall₂_iff_of_mem fun a ha a' => ?_)
            have htype : ∀ t, a = .type t → ∀ e, t.toTerm b = .ok e ↔ BecomesTerm b t e := fun t ht e =>
              ih t (mem_children_apply.2 (ht ▸ ha))
            exact ⟨fun h => h.imp_type fun t ht e => (htype t ht e).1,
              fun h => h.imp_type fun t ht e => (htype t ht e).2⟩
          rw [toTerm, map_eq_ok_iff]
          constructor
          · rintro ⟨args', h, rfl⟩
            exact .apply ((hargs args').1 h)
          · intro h
            cases h with
            | apply h => exact ⟨_, (hargs _).2 h, rfl⟩
      | record fields complete =>
          have hfields : ∀ fields', toTermFields b fields = .ok fields' ↔
              Forall₂ (Field.Agree (BecomesTerm b)) fields fields' := by
            refine fun fields' => toTermFields_eq_ok_iff.trans (forall₂_iff_of_mem fun f hf g => ?_)
            exact Field.agree_iff_of_type (ih f.type (List.mem_map_of_mem hf))
          rw [toTerm, map_eq_ok_iff]
          constructor
          · rintro ⟨fields', h, rfl⟩
            obtain ⟨hnames, htypes, hrequired⟩ := Field.forall₂_agree_iff.1 ((hfields fields').1 h)
            exact .record hnames htypes hrequired
          · intro h
            cases h with
            | record hnames htypes hrequired =>
                exact ⟨_, (hfields _).2 (Field.forall₂_agree_iff.2 ⟨hnames, htypes, hrequired⟩), rfl⟩
      | array element =>
          rw [toTerm, map_eq_ok_iff]
          constructor
          · rintro ⟨e, h, rfl⟩
            exact .array ((ih element List.mem_cons_self).1 h)
          · intro h
            cases h with
            | array h => exact ⟨_, (ih element List.mem_cons_self).2 h, rfl⟩
      | function params result =>
          have hparams : ∀ params', toTermParams b params = .ok params' ↔ Forall₂ (BecomesTerm b) params params' :=
            fun params' => toTermParams_eq_ok_iff.trans
              (forall₂_iff_of_mem fun t ht e => ih t (List.mem_append_left _ ht))
          have hresult : ∀ e, result.toTerm b = .ok e ↔ BecomesTerm b result e := fun e =>
            ih result (List.mem_append_right _ List.mem_cons_self)
          rw [toTerm, bind_eq_ok_iff]
          constructor
          · rintro ⟨params', h, hrest⟩
            obtain ⟨result', h', hrest⟩ := bind_eq_ok_iff.1 hrest
            cases hrest
            exact .function ((hparams params').1 h) ((hresult result').1 h')
          · intro h
            cases h with
            | function h h' => exact ⟨_, (hparams _).2 h, bind_eq_ok_iff.2 ⟨_, (hresult _).2 h', rfl⟩⟩

end Outcome

section Faults

variable {p : Scheme} {err : BindingError}

/-- A variable of the type is not bound in the way it is used, and this is the error that says so. -/
inductive Misbound (b : TermBindings) (t : Scheme) : BindingError → Prop where
  | type {name : Name} {u : UnitTerm} (hname : Part (.ident name) t) (h : b.get? name = some (.unit u)) :
      Misbound b t (.wrongKind name .type)
  | unbound {u : UnitScheme} {name : Name} (hunit : t.HasUnit u) (hname : .var name ∈ u.atoms)
      (h : b.get? name = none) : Misbound b t (.unboundUnit name)
  | unit {u : UnitScheme} {name : Name} {e : Term} (hunit : t.HasUnit u) (hname : .var name ∈ u.atoms)
      (h : b.get? name = some (.type e)) : Misbound b t (.wrongKind name .unit)

theorem Misbound.of_part (h : Misbound b p err) (hpart : Part p t) : Misbound b t err := by
  cases h with
  | type hname h => exact .type (hname.trans hpart) h
  | unbound hunit hname h => exact .unbound (hunit.of_part hpart) hname h
  | unit hunit hname h => exact .unit (hunit.of_part hpart) hname h

theorem exists_misbound_iff :
    (∃ err, Misbound b t err) ↔ (∃ name u, Part (.ident name) t ∧ b.get? name = some (.unit u)) ∨
      ∃ u name, t.HasUnit u ∧ .var name ∈ u.atoms ∧ ∀ v, b.get? name ≠ some (.unit v) := by
  constructor
  · rintro ⟨err, h⟩
    cases h with
    | type hname h => exact .inl ⟨_, _, hname, h⟩
    | unbound hunit hname h => exact .inr ⟨_, _, hunit, hname, by simp [h]⟩
    | unit hunit hname h => exact .inr ⟨_, _, hunit, hname, by simp [h]⟩
  · rintro (⟨name, u, hname, h⟩ | ⟨u, name, hunit, hname, h⟩)
    · exact ⟨_, .type hname h⟩
    · cases hvalue : b.get? name with
      | none => exact ⟨_, .unbound hunit hname hvalue⟩
      | some value =>
          cases value with
          | unit v => exact absurd hvalue (h v)
          | type e => exact ⟨_, .unit hunit hname hvalue⟩

/-- What is wrong with a unit is wrong with every type in which it stands. -/
theorem misbound_of_toTerm_unit {u : UnitScheme} (hunit : t.HasUnit u) (h : UnitScheme.toTerm b u = .error err) :
    Misbound b t err := by
  obtain ⟨a, ha, herror⟩ := Product.exists_atom_of_bindM_eq_error h
  cases a with
  | unit w => cases herror
  | var name =>
      rw [TermBindings.atom, Bindings.unit] at herror
      split at herror
      · cases herror
      · rename_i e he
        cases herror
        exact .unit hunit ha he
      · rename_i hnone
        cases herror
        exact .unbound hunit ha hnone

/-- An error names a variable that is not bound in the way it is used. -/
theorem misbound_of_toTerm_eq_error (h : t.toTerm b = .error err) : Misbound b t err := by
  induction t using induction_on_children with
  | step t ih =>
      have hpart : ∀ c ∈ t.children, c.toTerm b = .error err → Misbound b t err := fun c hc herror =>
        (ih c hc herror).of_part (part_iff.2 (.inr ⟨c, hc, .self⟩))
      cases t with
      | primitive p => cases h
      | number u => exact misbound_of_toTerm_unit (hasUnit_number u) (map_eq_error_iff.1 h)
      | ident name =>
          rw [toTerm, map_eq_error_iff, Bindings.typeVar] at h
          split at h
          · cases h
          · rename_i u hu
            cases h
            exact .type .self hu
          · cases h
      | apply name args =>
          rw [toTerm, map_eq_error_iff, toTermArgs_eq_mapM] at h
          obtain ⟨a, ha, herror⟩ := exists_of_mapM_eq_error h
          cases a with
          | unit u => exact misbound_of_toTerm_unit (hasUnit_apply ha) (map_eq_error_iff.1 herror)
          | type t => exact hpart t (mem_children_apply.2 ha) (map_eq_error_iff.1 herror)
      | record fields complete =>
          rw [toTerm, map_eq_error_iff, toTermFields_eq_mapM] at h
          obtain ⟨f, hf, herror⟩ := exists_of_mapM_eq_error h
          exact hpart f.type (List.mem_map_of_mem hf) (map_eq_error_iff.1 herror)
      | array element => exact hpart element List.mem_cons_self (map_eq_error_iff.1 h)
      | function params result =>
          rw [toTerm, toTermParams_eq_mapM] at h
          rcases bind_eq_error_iff.1 h with hparams | ⟨_, -, h⟩
          · obtain ⟨t, ht, herror⟩ := exists_of_mapM_eq_error hparams
            exact hpart t (List.mem_append_left _ ht) herror
          · rcases bind_eq_error_iff.1 h with hresult | ⟨_, -, h⟩
            · exact hpart result (List.mem_append_right _ List.mem_cons_self) hresult
            · cases h

/-- Every part of a type that becomes a term becomes one. -/
theorem BecomesTerm.exists_of_part (h : BecomesTerm b t e) (hpart : Part p t) : ∃ e', BecomesTerm b p e' := by
  induction hpart generalizing e with
  | self => exact ⟨e, h⟩
  | arg ht _ ih =>
      cases h with
      | apply h =>
          obtain ⟨_, -, hagree⟩ := exists_of_forall₂ h.flip _ ht
          cases hagree with
          | type h => exact ih h
  | field hf _ ih =>
      cases h with
      | record _ htypes _ =>
          obtain ⟨_, -, h⟩ := exists_of_forall₂ htypes.flip _ (List.mem_map_of_mem hf)
          exact ih h
  | element _ ih =>
      cases h with
      | array h => exact ih h
  | param ht _ ih =>
      cases h with
      | function hparams _ =>
          obtain ⟨_, -, h⟩ := exists_of_forall₂ hparams.flip _ ht
          exact ih h
  | result _ ih =>
      cases h with
      | function _ hresult => exact ih hresult

/-- The variables of the units in a type that becomes a term are bound to units. -/
theorem BecomesTerm.exists_unit (h : BecomesTerm b t e) {u : UnitScheme} (hunit : t.HasUnit u) {name : Name}
    (hname : .var name ∈ u.atoms) : ∃ v, b.get? name = some (.unit v) := by
  obtain ⟨p, hpart, hu⟩ := hunit
  obtain ⟨e', he'⟩ := h.exists_of_part hpart
  obtain ⟨v, hv⟩ : ∃ v, UnitScheme.toTerm b u = .ok v := by
    cases he' with
    | number hv =>
        rw [List.mem_singleton.1 hu]
        exact ⟨_, hv⟩
    | apply h =>
        obtain ⟨a, ha, hunit⟩ := List.mem_filterMap.1 hu
        obtain ⟨_, -, hagree⟩ := exists_of_forall₂ h.flip _ ha
        cases hagree with
        | unit hv =>
            cases hunit
            exact ⟨_, hv⟩
        | type => cases hunit
    | primitive | bound | unbound | record | array | function => cases hu
  obtain ⟨w, hw⟩ := Product.exists_bindM_eq_ok_iff.1 ⟨v, hv⟩ _ hname
  exact ⟨w, Bindings.unit_eq_ok_iff.1 hw⟩

theorem BecomesTerm.not_misbound (h : BecomesTerm b t e) : ¬ Misbound b t err := by
  intro hmisbound
  cases hmisbound with
  | type hname hu =>
      obtain ⟨e', he'⟩ := h.exists_of_part hname
      cases he' with
      | bound ht => cases hu.symm.trans ht
      | unbound hnone => cases hu.symm.trans hnone
  | unbound hunit hname hnone =>
      obtain ⟨v, hv⟩ := h.exists_unit hunit hname
      cases hv.symm.trans hnone
  | unit hunit hname ht =>
      obtain ⟨v, hv⟩ := h.exists_unit hunit hname
      cases hv.symm.trans ht

/-- Replacing the variables of a written type fails exactly if a name in it is bound to a unit, or a unit variable in it
is not bound to a unit; the error names such a variable.  Otherwise the result is built like the type. -/
theorem toTerm_outcomes (b : TermBindings) (t : Scheme) :
    ((∃ err, t.toTerm b = .error err) ↔
      (∃ name u, Part (.ident name) t ∧ b.get? name = some (.unit u)) ∨
        ∃ u name, t.HasUnit u ∧ .var name ∈ u.atoms ∧ ∀ v, b.get? name ≠ some (.unit v)) ∧
    (∀ err, t.toTerm b = .error err → Misbound b t err) ∧
    ∀ e, t.toTerm b = .ok e ↔ BecomesTerm b t e := by
  refine ⟨?_, fun err => misbound_of_toTerm_eq_error, fun e => toTerm_eq_ok_iff⟩
  rw [← exists_misbound_iff]
  constructor
  · rintro ⟨err, h⟩
    exact ⟨err, misbound_of_toTerm_eq_error h⟩
  · rintro ⟨err, hmisbound⟩
    cases h : t.toTerm b with
    | error err => exact ⟨err, rfl⟩
    | ok e => exact absurd hmisbound (toTerm_eq_ok_iff.1 h).not_misbound

/-- The field `a` and the tagged type `u` share their names with variables and are none.  The type `Unknown` is not
declared anywhere.  Used as a type, the unit variable `u` is an error, and so is the type variable `a` in a unit. -/
theorem toTerm_outcomes_of_shared_names :
    let b : TermBindings := (Bindings.empty.insert "a" (.type (.var 0))).insert "u" (.unit (.single (.var 0)))
    let unit : UnitScheme := .single (.var "u")
    let args : List (Arg UnitScheme Scheme) := [.type (.ident "Unknown"), .unit unit]
    let args' : List (Arg UnitTerm Term) := [.type (.tagged "Unknown" []), .unit (.single (.var 0))]
    BecomesTerm b (.function [.ident "a", .number unit] (.record [⟨"a", .apply "u" args, false⟩] false))
        (.function [.var 0, .number (.single (.var 0))] (.record [⟨"a", .tagged "u" args', false⟩] false)) ∧
      (∃ err, (Scheme.array (.ident "u")).toTerm b = .error err) ∧
      ∃ err, (Scheme.array (.number (.single (.var "a")))).toTerm b = .error err := by
  intro b unit args args'
  refine ⟨(toTerm_outcomes b _).2.2 _ |>.1 rfl, (toTerm_outcomes b _).1.2 (.inl ?_),
    (toTerm_outcomes b _).1.2 (.inr ?_)⟩
  · exact ⟨"u", _, .element .self, rfl⟩
  · refine ⟨_, "a", ⟨_, .element .self, List.mem_cons_self⟩, List.mem_cons_self, fun v hv => ?_⟩
    have hvalue : b.get? "a" = some (.type (.var 0)) := rfl
    cases hvalue.symm.trans hv

end Faults

end Scheme

end Tabula
