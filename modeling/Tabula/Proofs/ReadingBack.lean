import Tabula.Proofs.LiftedUnits
import Tabula.Proofs.UnitValues
import Tabula.Proofs.ValidTypes

/-!
# Lowering a written type and reading it back

Inference works on terms, and everything else on ground types.  So there are two ways from a written type and
ground values of its variables to a ground type: put the values in at once, or lower the type to a term in which the
values stand as terms, and read that term back.  This module shows that the two ways agree on every written type,
whatever else is in the store: they succeed on the same types, with the same results, and if lowering succeeds, they
fail for the same reason.

Powers may be clamped on the way.  Both ways do the same arithmetic in the same order, so they are clamped alike.
-/

namespace Tabula

open List (Forall₂)

/-- The second error is what the first one amounts to when a term is read.  Suggestions are lost. -/
inductive GroundingError.ReadAs : GroundingError → ReadError → Prop where
  | arguments (e : ArgumentError) : ReadAs (.arguments e) (.arguments e)
  | name (n : Name) (suggestions : List Scheme) : ReadAs (.unresolved (.name n) suggestions) (.unknownType n)
  | tagged (n : Name) (args : List (Arg UnitScheme Scheme)) (suggestions : List Scheme) :
      ReadAs (.unresolved (.tagged n args) suggestions) (.unknownType n)
  | openRecord (fields : List (Field Scheme)) (suggestions : List Scheme) :
      ReadAs (.unresolved (.openRecord fields) suggestions) .openRecord

/-- How what is lowered, `x`, and what is ground, `y`, belong together, if `read` is how the first is read back. -/
inductive Lowers {α β : Type} (read : β → Except ReadError α) :
    Except BindingError β → Except GroundingError α → Prop where
  | ok {e a} (h : read e = .ok a) : Lowers read (.ok e) (.ok a)
  | fails {e err err'} (h : read e = .error err') (herr : err.ReadAs err') : Lowers read (.ok e) (.error err)
  | unbound {err err'} : Lowers read (.error err) (.error err')

namespace Lowers

variable {α α' β β' : Type} {read : β → Except ReadError α} {read' : β' → Except ReadError α'}
  {x : Except BindingError β} {y : Except GroundingError α} {x' : Except BindingError β'}
  {y' : Except GroundingError α'}

theorem eq_ok_iff (h : Lowers read x y) (a : α) : y = .ok a ↔ ∃ e, x = .ok e ∧ read e = .ok a := by
  cases h with
  | @ok e a' h =>
      constructor
      · rintro ⟨⟩
        exact ⟨e, rfl, h⟩
      · rintro ⟨_, ⟨⟩, hread⟩
        exact congrArg Except.ok (Except.ok.inj (h.symm.trans hread))
  | fails h _ =>
      refine iff_of_false nofun ?_
      rintro ⟨_, ⟨⟩, hread⟩
      cases h.symm.trans hread
  | unbound =>
      refine iff_of_false nofun ?_
      rintro ⟨_, ⟨⟩, -⟩

theorem exists_error {e : β} {err : GroundingError} (h : Lowers read (.ok e) (.error err)) :
    ∃ err', read e = .error err' ∧ err.ReadAs err' := by
  cases h with
  | fails h herr => exact ⟨_, h, herr⟩

theorem map (h : Lowers read x y) {f : β → β'} {g : α → α'} (hread : ∀ e, read' (f e) = (read e).map g) :
    Lowers read' (x.map f) (y.map g) := by
  cases h with
  | @ok e a h => exact .ok (by rw [hread, h]; rfl)
  | @fails e err err' h herr => exact .fails (by rw [hread, h]; rfl) herr
  | unbound => exact .unbound

theorem relabel (h : Lowers read x y) {read' : β' → Except ReadError α} {f : β → β'}
    (hread : ∀ e, read' (f e) = read e) : Lowers read' (x.map f) y := by
  cases h with
  | ok h => exact .ok ((hread _).trans h)
  | fails h herr => exact .fails ((hread _).trans h) herr
  | unbound => exact .unbound

/-- A further step on what is read. -/
theorem andThen (h : Lowers read x y) {next : α → Except ReadError α'} {next' : α → Except GroundingError α'}
    (hnext : ∀ a, Lowers next (.ok a) (next' a)) : Lowers (fun e => read e >>= next) x (y >>= next') := by
  cases h with
  | @ok e a h =>
      change Lowers _ _ (next' a)
      have hread : (read e >>= next) = next a := by rw [h]; rfl
      have hlast := hnext a
      generalize next' a = result at hlast ⊢
      cases hlast with
      | ok h => exact .ok (hread.trans h)
      | fails h herr => exact .fails (hread.trans h) herr
  | fails h herr => exact .fails (by rw [h]; rfl) herr
  | unbound => exact .unbound

/-- Two parts of one whole, the first of which is read first.  If the first part fails to be read, the second
part may still fail to be lowered; then the whole is not lowered. -/
theorem both {β'' α'' : Type} {read'' : β'' → Except ReadError α''} {f : β → β' → β''} {g : α → α' → α''}
    (h : Lowers read x y) (h' : Lowers read' x' y')
    (hread : ∀ e e', read'' (f e e') = do let a ← read e; let a' ← read' e'; return g a a') :
    Lowers read'' (do let e ← x; let e' ← x'; return f e e') (do let a ← y; let a' ← y'; return g a a') := by
  cases h with
  | ok h =>
      cases h' with
      | ok h' => exact .ok (by rw [hread, h, h']; rfl)
      | fails h' herr => exact .fails (by rw [hread, h, h']; rfl) herr
      | unbound => exact .unbound
  | fails h herr =>
      cases h' with
      | ok | fails => exact .fails (by rw [hread, h]; rfl) herr
      | unbound => exact .unbound
  | unbound => exact .unbound

end Lowers

/-- The same names have values, and each term is read as the ground value of its name. -/
def TermBindings.ReadsAs (b : TermBindings) (s : Substitution) (read : Term → Except ReadError GroundType) : Prop :=
  ∀ name, Option.Rel (Arg.Agree (Product.Corresponds Atom.Names) fun d e => read e = .ok d)
    (s.get? name) (b.get? name)

section Units

variable {s : Substitution} {b : TermBindings} {read : Term → Except ReadError GroundType}

theorem Store.readUnit_of_corresponds {m : Measure} {v : UnitTerm} (store : Store)
    (h : Product.Corresponds Atom.Names m v) : store.readUnit v = .ok m := by
  rw [Store.readUnit, Store.resolve_eq_self (Measure.not_mem_atoms_of_corresponds h),
    Measure.toMeasure?_of_corresponds h]

theorem TermBindings.ReadsAs.liftsUnits (h : b.ReadsAs s read) : b.LiftsUnits s := by
  intro name
  have hrel := h name
  generalize s.get? name = value, b.get? name = value' at hrel ⊢
  cases hrel with
  | none => exact .none
  | some hagree =>
      cases hagree with
      | unit hunit => exact .some (.unit (Measure.corresponds_names_iff.1 hunit))
      | type _ => exact .some (.type trivial)

theorem TermBindings.ReadsAs.groundUnit (h : b.ReadsAs s read) (store : Store) (u : UnitScheme) :
    Lowers store.readUnit (UnitScheme.toTerm b u) (Scheme.groundUnit s u) := by
  cases hv : UnitScheme.toTerm b u with
  | ok v =>
      obtain ⟨m, hm, hmv⟩ := h.liftsUnits.exists_toMeasure hv
      rw [Scheme.groundUnit, hm]
      exact .ok (store.readUnit_of_corresponds hmv)
  | error err =>
      cases hm : UnitScheme.toMeasure s u with
      | error err' =>
          rw [Scheme.groundUnit, hm]
          exact .unbound
      | ok m =>
          obtain ⟨v, hv'⟩ := h.liftsUnits.exists_toTerm hm
          cases hv.symm.trans hv'

end Units

section Types

variable {c : Catalog}

theorem Scheme.lowers_groundTagged {name : Name} {part : Unresolved} (values : List (Arg Measure GroundType))
    (hpart : ∀ suggestions, GroundingError.ReadAs (.unresolved part suggestions) (.unknownType name)) :
    Lowers (Term.groundTagged c name) (.ok values) (Scheme.groundTagged c name values part) := by
  unfold Scheme.groundTagged
  split
  · rename_i d hlookup
    exact .ok (by rw [Term.groundTagged, hlookup])
  · rename_i hlookup
    exact .fails (by rw [Term.groundTagged, hlookup]) (hpart _)
  · rename_i err hlookup
    exact .fails (by rw [Term.groundTagged, hlookup]) (.arguments err)

theorem Scheme.lowers_groundFieldType (required : Bool) (d : GroundType) :
    Lowers (Term.groundFieldType c required) (.ok d) (Scheme.groundFieldType c required d) := by
  cases required with
  | true => exact .ok rfl
  | false =>
      rw [Scheme.groundFieldType, if_neg Bool.false_ne_true]
      cases hwrap : c.wrap d with
      | ok t => exact .ok (by rw [Term.groundFieldType, if_neg Bool.false_ne_true, hwrap]; rfl)
      | error err =>
          exact .fails (by rw [Term.groundFieldType, if_neg Bool.false_ne_true, hwrap]; rfl) (.arguments err)

variable {s : Substitution} {b : TermBindings} {type : VarId → Except ReadError GroundType} {store : Store}

theorem Scheme.lowers_tagged {name : Name} {part : Unresolved} {x : Except BindingError (List (Arg UnitTerm Term))}
    {y : Except GroundingError (List (Arg Measure GroundType))}
    (hargs : Lowers (Term.toGroundArgs c type store.readUnit) x y)
    (hpart : ∀ suggestions, GroundingError.ReadAs (.unresolved part suggestions) (.unknownType name)) :
    Lowers (Term.toGround c type store.readUnit) (x.map (.tagged name))
      (y >>= fun values => groundTagged c name values part) :=
  (hargs.andThen fun values => lowers_groundTagged values hpart).relabel fun _ => rfl

theorem Scheme.lowers_args {args : List (Arg UnitScheme Scheme)}
    (hunit : ∀ u, Lowers store.readUnit (UnitScheme.toTerm b u) (Scheme.groundUnit s u))
    (htypes : ∀ t, .type t ∈ args → Lowers (Term.toGround c type store.readUnit) (t.toTerm b) (t.toGround s c)) :
    Lowers (Term.toGroundArgs c type store.readUnit) (toTermArgs b args) (toGroundArgs s c args) := by
  induction args with
  | nil => exact .ok rfl
  | cons a args ih =>
      have hrest := ih fun t ht => htypes t (List.mem_cons_of_mem _ ht)
      cases a with
      | unit u => exact (hunit u).both hrest fun _ _ => rfl
      | type t => exact (htypes t List.mem_cons_self).both hrest fun _ _ => rfl

theorem Scheme.lowers_fields {fields : List (Field Scheme)}
    (htypes : ∀ f ∈ fields, Lowers (Term.toGround c type store.readUnit) (f.type.toTerm b) (f.type.toGround s c)) :
    Lowers (Term.toGroundFields c type store.readUnit) (toTermFields b fields) (toGroundFields s c fields) := by
  induction fields with
  | nil => exact .ok rfl
  | cons f fields ih =>
      obtain ⟨hf, hfields⟩ := List.forall_mem_cons.1 htypes
      -- A field that may be missing is wrapped as soon as it is read, before the other fields are.
      have hfirst := hf.andThen (lowers_groundFieldType (c := c) f.required)
      have hwhole : Lowers (Term.toGroundFields c type store.readUnit) _ _ :=
        hfirst.both (f := fun e es => ⟨f.name, e, f.required⟩ :: es) (g := fun d ds => (f.name, d) :: ds) (ih hfields)
          fun _ _ => by simp only [Term.toGroundFields, bind_assoc]
      rw [bind_assoc] at hwhole
      exact hwhole

theorem Scheme.lowers_params {params : List Scheme}
    (htypes : ∀ t ∈ params, Lowers (Term.toGround c type store.readUnit) (t.toTerm b) (t.toGround s c)) :
    Lowers (Term.toGroundParams c type store.readUnit) (toTermParams b params) (toGroundParams s c params) := by
  induction params with
  | nil => exact .ok rfl
  | cons t params ih =>
      obtain ⟨ht, hparams⟩ := List.forall_mem_cons.1 htypes
      exact ht.both (ih hparams) fun _ _ => rfl

/-- A name is read as its value, or looked up on both sides. -/
theorem Scheme.lowers_ident (h : b.ReadsAs s (Term.toGround c type store.readUnit)) (name : Name) :
    Lowers (Term.toGround c type store.readUnit) ((ident name).toTerm b) ((ident name).toGround s c) := by
  have hrel := h name
  simp only [toTerm, toGround, Bindings.typeVar]
  generalize s.get? name = value, b.get? name = value' at hrel ⊢
  cases hrel with
  | none => exact lowers_tagged (.ok rfl) (.name name)
  | some hagree =>
      cases hagree with
      | unit => exact .unbound
      | type h => exact .ok h

/-- A written type that is lowered and read back is the ground type that the values put in give. -/
theorem Scheme.lowers (h : b.ReadsAs s (Term.toGround c type store.readUnit)) (t : Scheme) :
    Lowers (Term.toGround c type store.readUnit) (t.toTerm b) (t.toGround s c) := by
  induction t using Scheme.induction_on_children with
  | step t ih =>
      cases t with
      | primitive p => exact .ok rfl
      | number u => exact (h.groundUnit store u).map fun _ => rfl
      | ident name => exact lowers_ident h name
      | apply name args =>
          have hargs := lowers_args (h.groundUnit store) fun t ht => ih t (mem_children_apply.2 ht)
          exact lowers_tagged hargs (.tagged name args)
      | record fields complete =>
          cases complete with
          | true => exact (lowers_fields fun f hf => ih f.type (List.mem_map_of_mem hf)).map fun _ => rfl
          | false =>
              -- An open record has no ground type whatever its fields are, but all of them are lowered.
              rw [toTerm]
              cases toTermFields b fields with
              | ok values => exact .fails rfl (.openRecord _ _)
              | error err => exact .unbound
      | array element => exact (ih element List.mem_cons_self).map fun _ => rfl
      | function params result =>
          have hparams := lowers_params fun t ht => ih t (List.mem_append_left _ ht)
          have hresult := ih result (List.mem_append_right _ List.mem_cons_self)
          exact hparams.both hresult fun _ _ => rfl

end Types

/-- The types among the values are valid. -/
def Substitution.Valid (c : Catalog) (s : Substitution) : Prop :=
  ∀ name d, s.get? name = some (.type d) → d.Valid c

/-- A unit as a term is the unit itself, and a type as a term is what its written form is lowered to. -/
def Arg.Lifts : Arg Measure GroundType → Arg UnitTerm Term → Prop :=
  Arg.Agree (fun m u => u = m.lift) fun d e => d.toScheme.toTerm .empty = .ok e

/-- The same names have values, and these are the ground values as terms. -/
def TermBindings.Lifts (b : TermBindings) (s : Substitution) : Prop :=
  ∀ name, Option.Rel Arg.Lifts (s.get? name) (b.get? name)

section Lifted

variable {c : Catalog} {s : Substitution} {b : TermBindings}

/-- A valid type has a term, and whatever is in the store, it is read back as the type. -/
theorem GroundType.Valid.exists_toTerm {d : GroundType} (h : d.Valid c)
    (type : VarId → Except ReadError GroundType) (store : Store) :
    ∃ e, d.toScheme.toTerm .empty = .ok e ∧ e.toGround c type store.readUnit = .ok d := by
  have hempty : TermBindings.ReadsAs .empty .empty (Term.toGround c type store.readUnit) := fun _ => .none
  exact ((Scheme.lowers hempty d.toScheme).eq_ok_iff d).1 h.toGround_toScheme

theorem TermBindings.Lifts.readsAs (h : b.Lifts s) (hs : s.Valid c) (type : VarId → Except ReadError GroundType)
    (store : Store) : b.ReadsAs s (Term.toGround c type store.readUnit) := by
  intro name
  have hrel := h name
  generalize hvalue : s.get? name = value at hrel ⊢
  generalize b.get? name = value' at hrel ⊢
  cases hrel with
  | none => exact .none
  | some hagree =>
      cases hagree with
      | @unit m _ heq =>
          rw [heq]
          exact .some (.unit (Measure.corresponds_lift m))
      | type hterm =>
          -- The written form of a valid type has no variables, so its term is read as the type itself.
          obtain ⟨e, he, hread⟩ := (hs name _ hvalue).exists_toTerm type store
          cases hterm.symm.trans he
          exact .some (.type hread)

theorem TermBindings.Lifts.of_entries (h : Forall₂ (fun x y => x.1 = y.1 ∧ x.2.Lifts y.2) s.entries b.entries) :
    b.Lifts s :=
  Bindings.rel_get?_of_entries h

theorem Substitution.Valid.exists_lifts (hs : s.Valid c) : ∃ b : TermBindings, b.Lifts s := by
  refine Bindings.exists_rel_get? fun entry hentry => ?_
  obtain ⟨name, value⟩ := entry
  cases value with
  | unit m => exact ⟨.unit m.lift, .unit rfl⟩
  | type d =>
      have hd : d.Valid c := hs name d (Bindings.get?_of_mem hentry)
      obtain ⟨e, he, -⟩ := hd.exists_toTerm (fun _ => .error .cyclicStore) .empty
      exact ⟨.type e, .type he⟩

end Lifted

/-- Every written type that is lowered with ground values of its variables is read back, from any store, as the
ground type that the values put in give, and it fails to be read for the reason that it has no ground type. -/
theorem Scheme.toGround_iff_readType {c : Catalog} {s : Substitution} (hs : s.Valid c) :
    (∃ b : TermBindings, b.Lifts s) ∧ ∀ b : TermBindings, b.Lifts s → ∀ (store : Store) (t : Scheme),
      (∀ d, t.toGround s c = .ok d ↔ ∃ e, t.toTerm b = .ok e ∧ store.readType c e = .ok d) ∧
        ∀ e err, t.toTerm b = .ok e → t.toGround s c = .error err →
          ∃ err', store.readType c e = .error err' ∧ err.ReadAs err' := by
  refine ⟨hs.exists_lifts, fun b hb store t => ?_⟩
  have hlowers : Lowers (store.readType c) (t.toTerm b) (t.toGround s c) := lowers (hb.readsAs hs _ store) t
  refine ⟨hlowers.eq_ok_iff, fun e err he herr => ?_⟩
  rw [he, herr] at hlowers
  exact hlowers.exists_error

/-- A power is clamped, a field gets its wrapper, and a variable of the store is its own value: the two ways agree.
They agree about a name that means nothing, too. -/
theorem Scheme.toGround_iff_readType_of_clamped_power :
    let top : Exponent := ⟨2147483647, by decide, by decide⟩
    let text : GroundType := .tagged "Optional" [.type (.primitive .text)]
    let span : Measure := (Product.single "m").raise top
    let s : Substitution := ⟨[("t", .type text), ("u", .unit span)], by decide⟩
    let b : TermBindings := ⟨[("t", .type (.tagged "Optional" [.type (.primitive .text)])), ("u", .unit span.lift)],
      by decide⟩
    let squared : UnitScheme := (Product.single (.var "u")).raise ⟨2, by decide, by decide⟩
    let t : Scheme := .record [⟨"span", .number squared, false⟩, ⟨"value", .ident "t", true⟩] true
    let d : GroundType := .record [("span", .tagged "Optional" [.type (.number span)]), ("value", text)]
    let store : Store := ⟨#[some (.var 0)], #[]⟩
    let missing : Scheme := .array (.ident "Missing")
    s.Valid .empty ∧ b.Lifts s ∧ (∃ e, t.toTerm b = .ok e ∧ store.readType .empty e = .ok d) ∧
      ∃ e err, missing.toTerm b = .ok e ∧ missing.toGround s .empty = .error err ∧
        ∃ err', store.readType .empty e = .error err' ∧ err.ReadAs err' := by
  intro top text span s b squared t d store missing
  have htext : text.Valid .empty := by
    refine .tagged (d := Catalog.optional) rfl rfl fun t ht => ?_
    cases List.mem_singleton.1 ht
    exact .primitive _
  have hs : s.Valid .empty := by
    intro name d hd
    have hmem := Bindings.get?_eq_some hd
    simp only [s, List.mem_cons, List.not_mem_nil, or_false, Prod.mk.injEq, Arg.type.injEq, reduceCtorEq,
      and_false] at hmem
    exact hmem.2 ▸ htext
  have hb : b.Lifts s := .of_entries (.cons ⟨rfl, .type rfl⟩ (.cons ⟨rfl, .unit rfl⟩ .nil))
  have hagree := (toGround_iff_readType hs).2 b hb store
  have hground : t.toGround s .empty = .ok d := by
    simp only [t, d, s, squared, span, top, text]
    rfl
  have hterm : missing.toTerm b = .ok (.array (.tagged "Missing" [])) := by
    simp only [missing, b, span, top]
    rfl
  have hmissing : missing.toGround s .empty =
      .error (.unresolved (.name "Missing") ((Unresolved.name "Missing").suggestions .empty)) := by
    simp only [missing, s, span, top, text]
    rfl
  exact ⟨hs, hb, ((hagree t).1 d).1 hground, _, _, hterm, hmissing, (hagree missing).2 _ _ hterm hmissing⟩

end Tabula
