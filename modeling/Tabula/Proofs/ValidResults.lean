import Tabula.Catalog.Sample
import Tabula.Proofs.GroundParts
import Tabula.Proofs.InferenceSound
import Tabula.Proofs.ReadingBack

/-!
# Ground types are valid where they come from

Ground types come from written types, from the declarations of tagged types, and from stores.  All of them look
tagged types up in the catalog, and the wrapper of optional fields is declared in it, so what they give is valid in
the catalog.  A written type is lowered to a term, which is read back as the same ground type, so that all three
come down to reading a term.

Conversely, writing a ground type down and making it ground again tells whether it is valid: the result is the type
itself, or an error.  It is never another type, because nothing is looked up but what the type names.

The declarations themselves are not assumed to be valid.  The value of a tag may refer to types that nobody
declared; then there is no ground type for it at all.
-/

namespace Tabula

open List (Forall₂)

namespace GroundType

variable {c : Catalog}

mutual

/-- The written form of a type has no other ground type than the type itself. -/
theorem toGround_toScheme_atMost (c : Catalog) :
    (d : GroundType) → AtMost (d.toScheme.toGround .empty c) (.ok d : Except GroundingError GroundType)
  | primitive p => .refl _
  | number u => by
      intro d hd
      obtain ⟨m, hm, rfl⟩ := map_eq_ok_iff.1 hd
      cases (groundUnit_lift _ u).symm.trans hm
      rfl
  | tagged name args => by
      intro d hd
      have hargs := toGroundArgs_toSchemeArgs_atMost c args
      cases args with
      | nil =>
          -- The type is written as a plain name.
          exact congrArg Except.ok (Scheme.groundTagged_eq_ok_iff.1 hd).1.symm
      | cons a args =>
          have hcons : ∃ a' args', toSchemeArgs (a :: args) = a' :: args' := by
            cases a with
            | unit u => exact ⟨_, _, rfl⟩
            | type t => exact ⟨_, _, rfl⟩
          obtain ⟨a', args', hwritten⟩ := hcons
          rw [toScheme, hwritten] at hd
          rw [hwritten] at hargs
          obtain ⟨values, hvalues, hd⟩ := bind_eq_ok_iff.1 hd
          cases hargs values hvalues
          exact congrArg Except.ok (Scheme.groundTagged_eq_ok_iff.1 hd).1.symm
  | record fields => (toGroundFields_toSchemeFields_atMost c fields).map record
  | array element => (toGround_toScheme_atMost c element).map array
  | function params result => by
      intro d hd
      obtain ⟨params', hparams', hd⟩ := bind_eq_ok_iff.1 hd
      obtain ⟨result', hresult', hd⟩ := bind_eq_ok_iff.1 hd
      cases toGroundParams_toSchemeParams_atMost c params params' hparams'
      cases toGround_toScheme_atMost c result result' hresult'
      exact hd
termination_by structural d => d

theorem toGroundArgs_toSchemeArgs_atMost (c : Catalog) :
    (args : List (Arg Measure GroundType)) →
      AtMost (Scheme.toGroundArgs .empty c (toSchemeArgs args)) (.ok args : Except GroundingError _)
  | [] => .refl _
  | .unit u :: args => by
      intro values hvalues
      obtain ⟨m, hm, hvalues⟩ := bind_eq_ok_iff.1 hvalues
      obtain ⟨rest, hrest, hvalues⟩ := bind_eq_ok_iff.1 hvalues
      cases (groundUnit_lift _ u).symm.trans hm
      cases toGroundArgs_toSchemeArgs_atMost c args rest hrest
      exact hvalues
  | .type t :: args => by
      intro values hvalues
      obtain ⟨d, hd, hvalues⟩ := bind_eq_ok_iff.1 hvalues
      obtain ⟨rest, hrest, hvalues⟩ := bind_eq_ok_iff.1 hvalues
      cases toGround_toScheme_atMost c t d hd
      cases toGroundArgs_toSchemeArgs_atMost c args rest hrest
      exact hvalues
termination_by structural args => args

theorem toGroundFields_toSchemeFields_atMost (c : Catalog) :
    (fields : List (Name × GroundType)) →
      AtMost (Scheme.toGroundFields .empty c (toSchemeFields fields)) (.ok fields : Except GroundingError _)
  | [] => .refl _
  | (name, t) :: fields => by
      intro values hvalues
      obtain ⟨d, hd, hvalues⟩ := bind_eq_ok_iff.1 hvalues
      -- All fields are written as required ones, so none gets a wrapper.
      obtain ⟨_, hfieldType, hvalues⟩ := bind_eq_ok_iff.1 hvalues
      cases hfieldType
      obtain ⟨rest, hrest, hvalues⟩ := bind_eq_ok_iff.1 hvalues
      cases toGround_toScheme_atMost c t d hd
      cases toGroundFields_toSchemeFields_atMost c fields rest hrest
      exact hvalues
termination_by structural fields => fields

theorem toGroundParams_toSchemeParams_atMost (c : Catalog) :
    (params : List GroundType) →
      AtMost (Scheme.toGroundParams .empty c (toSchemeParams params)) (.ok params : Except GroundingError _)
  | [] => .refl _
  | t :: params => by
      intro values hvalues
      obtain ⟨d, hd, hvalues⟩ := bind_eq_ok_iff.1 hvalues
      obtain ⟨rest, hrest, hvalues⟩ := bind_eq_ok_iff.1 hvalues
      cases toGround_toScheme_atMost c t d hd
      cases toGroundParams_toSchemeParams_atMost c params rest hrest
      exact hvalues
termination_by structural params => params

end

end GroundType

section Producers

variable {c : Catalog}

/-- The wrapper of optional fields is the type that the catalog declares under its name. -/
def Catalog.DeclaresWrapper (c : Catalog) : Prop :=
  c.find? c.wrapper.name = some c.wrapper

/-- A field is valid if its type is, also if it gets a wrapper. -/
theorem Term.valid_of_groundFieldType (hwrapper : c.DeclaresWrapper) {required : Bool} {t d : GroundType}
    (ht : t.Valid c) (h : groundFieldType c required t = .ok d) : d.Valid c := by
  cases required with
  | true =>
      cases h
      exact ht
  | false =>
      obtain ⟨rfl, hargs⟩ := Catalog.wrap_eq_ok_iff.1 (mapError_eq_ok_iff.1 h)
      refine .tagged hwrapper hargs fun t' ht' => ?_
      cases List.mem_singleton.1 ht'
      exact ht

/-- What a term is read as is valid if its variables are read as valid types. -/
theorem Term.valid_of_toGround (hwrapper : c.DeclaresWrapper) {type : VarId → Except ReadError GroundType}
    {unit : UnitTerm → Except ReadError Measure} (htype : ∀ id d, type id = .ok d → d.Valid c) {t : Term}
    {d : GroundType} (h : t.toGround c type unit = .ok d) : d.Valid c := by
  induction t using induction_on_children generalizing d with
  | step t ih =>
      cases t with
      | var id => exact htype id d h
      | primitive p =>
          cases h
          exact .primitive p
      | number u =>
          obtain ⟨m, -, rfl⟩ := map_eq_ok_iff.1 h
          exact .number m
      | tagged name args =>
          obtain ⟨values, hvalues, h⟩ := bind_eq_ok_iff.1 h
          obtain ⟨rfl, definition, hfind, haccepts⟩ := groundTagged_eq_ok_iff.1 h
          refine .tagged hfind haccepts fun d hd => ?_
          obtain ⟨a, ha, hagree⟩ := exists_of_forall₂ (toGroundArgs_eq_ok hvalues) _ hd
          cases hagree with
          | type hread => exact ih _ (mem_children_tagged.2 ha) hread
      | record fields complete =>
          cases complete with
          | false => cases h
          | true =>
              obtain ⟨values, hvalues, rfl⟩ := map_eq_ok_iff.1 h
              refine .record fun value hvalue => ?_
              obtain ⟨f, hf, hfield⟩ := exists_of_forall₂ (toGroundFields_eq_ok hvalues) value hvalue
              obtain ⟨d, hread, hfieldType⟩ := hfield.type
              exact valid_of_groundFieldType hwrapper (ih f.type (List.mem_map_of_mem hf) hread) hfieldType
      | array element =>
          obtain ⟨d, hread, rfl⟩ := map_eq_ok_iff.1 h
          exact .array (ih element List.mem_cons_self hread)
      | function params result =>
          obtain ⟨values, hvalues, h⟩ := bind_eq_ok_iff.1 h
          obtain ⟨d, hread, h⟩ := bind_eq_ok_iff.1 h
          cases h
          refine .function (fun value hvalue => ?_) (ih result (List.mem_append_right _ List.mem_cons_self) hread)
          obtain ⟨t, ht, hread⟩ := exists_of_forall₂ (toGroundParams_eq_ok hvalues) value hvalue
          exact ih t (List.mem_append_left _ ht) hread

/-- A written type with valid values of its variables has a valid ground type. -/
theorem Scheme.valid_of_toGround (hwrapper : c.DeclaresWrapper) {s : Substitution} (hs : s.Valid c) {t : Scheme}
    {d : GroundType} (h : t.toGround s c = .ok d) : d.Valid c := by
  obtain ⟨b, hb⟩ := hs.exists_lifts
  -- The values are lifted to terms without variables, so it does not matter what variables are read as.
  let type : VarId → Except ReadError GroundType := fun _ => .error .cyclicStore
  obtain ⟨e, -, hread⟩ := ((lowers (hb.readsAs hs type .empty) t).eq_ok_iff d).1 h
  exact Term.valid_of_toGround hwrapper (fun _ _ h => by cases h) hread

theorem Substitution.valid_empty : Substitution.Valid c .empty :=
  fun _ _ h => nomatch h

theorem Substitution.Valid.insert {s : Substitution} (hs : s.Valid c) {name : Name} {value : Arg Measure GroundType}
    (hvalue : ∀ d, value = .type d → d.Valid c) : Substitution.Valid c (s.insert name value) := by
  intro other d hd
  rcases Ascending.mem_insert (Bindings.get?_eq_some hd) with heq | hmem
  · cases heq
    exact hvalue d rfl
  · exact hs other d (Bindings.get?_of_mem hmem)

/-- The parameters of a tagged type are bound to nothing but the arguments. -/
theorem TaggedType.valid_of_substitution {definition : TaggedType} {args : List (Arg Measure GroundType)}
    {s : Substitution} (hargs : ∀ d, .type d ∈ args → d.Valid c) (h : definition.substitution args = .ok s) :
    s.Valid c := by
  have hfold : ∀ (pairs : List (Param × Arg Measure GroundType)) (start : Substitution),
      (∀ p ∈ pairs, ∀ d, p.2 = .type d → d.Valid c) → start.Valid c →
      Substitution.Valid c (pairs.foldl (fun b p => b.insert p.1.name p.2) start) := by
    intro pairs
    induction pairs with
    | nil => exact fun _ _ hstart => hstart
    | cons p pairs ih =>
        intro start hpairs hstart
        obtain ⟨hp, hpairs⟩ := List.forall_mem_cons.1 hpairs
        exact ih _ hpairs (hstart.insert hp)
  unfold substitution at h
  split at h
  · cases h
    refine hfold _ _ (fun p hp d hd => hargs d ?_) Substitution.valid_empty
    exact hd ▸ (List.of_mem_zip hp).2
  · cases h

/-- The values of the tags have valid types if the arguments are valid. -/
theorem TaggedType.valid_of_instantiateTags (hwrapper : c.DeclaresWrapper) {definition : TaggedType}
    {args : List (Arg Measure GroundType)} {tags : List (Name × Option GroundType)}
    (hargs : ∀ d, .type d ∈ args → d.Valid c) (h : definition.instantiateTags c args = .ok tags) {name : Name}
    {d : GroundType} (hd : (name, some d) ∈ tags) : d.Valid c := by
  obtain ⟨s, hs, h⟩ := bind_eq_ok_iff.1 h
  have hvalid := valid_of_substitution hargs (mapError_eq_ok_iff.1 hs)
  obtain ⟨tag, -, htag⟩ := exists_of_forall₂ (mapM_eq_ok_iff.1 h) _ hd
  cases hpayload : tag.payload with
  | none =>
      rw [hpayload] at htag
      cases htag
  | some t =>
      rw [hpayload] at htag
      obtain ⟨d', hd', heq⟩ := bind_eq_ok_iff.1 htag
      cases heq
      exact Scheme.valid_of_toGround hwrapper hvalid hd'

/-- What is read back from a store is valid, whatever is in the store. -/
theorem Store.valid_of_readType (hwrapper : c.DeclaresWrapper) {store : Store} {t : Term} {d : GroundType}
    (h : store.readType c t = .ok d) : d.Valid c := by
  have hread : ∀ n t d, store.readTypeWithin c n t = .ok d → d.Valid c := by
    intro n
    induction n with
    | zero => exact fun _ _ h => nomatch h
    | succ n ih =>
        intro t d h
        refine Term.valid_of_toGround hwrapper (fun id d hd => ?_) h
        split at hd
        · cases hd
        · exact ih _ d hd
  exact hread _ t d h

theorem Store.valid_of_solve (hwrapper : c.DeclaresWrapper) {store : Store} {b : TermBindings} {s : Substitution}
    (h : store.solve c b = .ok s) : s.Valid c := by
  intro name d hd
  have hrel := get?_of_solve h name
  rw [hd] at hrel
  generalize b.get? name = found at hrel
  cases hrel with
  | @some a _ hread =>
      cases a with
      | unit u =>
          obtain ⟨_, -, heq⟩ := map_eq_ok_iff.1 hread
          cases heq
      | type t =>
          obtain ⟨d', hd', heq⟩ := map_eq_ok_iff.1 hread
          cases heq
          exact valid_of_readType hwrapper (mapError_eq_ok_iff.1 hd')

end Producers

/-- Every ground type that comes from a written type, from a declaration or from a store is valid, and a ground type
is valid exactly if it is the ground type of its written form, which has none otherwise. -/
theorem Catalog.groundTypes_valid {c : Catalog} (hwrapper : c.DeclaresWrapper) :
    (∀ (s : Substitution) (t : Scheme) (d : GroundType), s.Valid c → t.toGround s c = .ok d → d.Valid c) ∧
    (∀ (definition : TaggedType) (args : List (Arg Measure GroundType)) (tags : List (Name × Option GroundType)),
      (∀ d, .type d ∈ args → d.Valid c) → definition.instantiateTags c args = .ok tags →
        ∀ name d, (name, some d) ∈ tags → d.Valid c) ∧
    (∀ (store : Store) (t : Term) (d : GroundType), store.readType c t = .ok d → d.Valid c) ∧
    (∀ (store : Store) (b : TermBindings) (s : Substitution), store.solve c b = .ok s → s.Valid c) ∧
    ∀ d : GroundType, (d.Valid c → d.toScheme.toGround .empty c = .ok d) ∧
      (¬ d.Valid c → ∃ err, d.toScheme.toGround .empty c = .error err) := by
  refine ⟨fun s t d hs => Scheme.valid_of_toGround hwrapper hs, fun definition args tags hargs h name d =>
    TaggedType.valid_of_instantiateTags hwrapper hargs h, fun store t d => Store.valid_of_readType hwrapper,
    fun store b s => Store.valid_of_solve hwrapper, fun d => ⟨GroundType.Valid.toGround_toScheme, fun hd => ?_⟩⟩
  cases h : d.toScheme.toGround .empty c with
  | error err => exact ⟨err, rfl⟩
  | ok d' =>
      -- The result would be valid, and it would be the type itself.
      have hvalid : d'.Valid c := Scheme.valid_of_toGround hwrapper Substitution.valid_empty h
      cases GroundType.toGround_toScheme_atMost c d d' h
      exact absurd hvalid hd

/-- The definition of lists refers to itself, a field of a record read from a store gets the wrapper, and a type is
not valid if one of its parts has too many arguments. -/
theorem Catalog.groundTypes_valid_of_recursive_definition :
    let c := Catalog.sample
    let span : GroundType := .tagged "Measured" [.unit (.single "m")]
    let cons : GroundType := .record [("head", span), ("tail", .tagged "List" [.type span])]
    let store : Store := ⟨#[some (.tagged "Colour" [])], #[]⟩
    let shade : GroundType := .record [("shade", .tagged "Optional" [.type (.tagged "Colour" [])])]
    let wrong : GroundType := .array (.tagged "Colour" [.type span])
    c.DeclaresWrapper ∧
      (∃ list, c.find? "List" = some list ∧
        list.instantiateTags c [.type span] = .ok [("Nil", none), ("Cons", some cons)]) ∧ cons.Valid c ∧
      store.readType c (.record [⟨"shade", .var 0, false⟩] true) = .ok shade ∧ shade.Valid c ∧
      cons.toScheme.toGround .empty c = .ok cons ∧ ¬ wrong.Valid c ∧
      ∃ err, wrong.toScheme.toGround .empty c = .error err := by
  intro c span cons store shade wrong
  have hspan : span.Valid c := .tagged (d := ⟨"Measured", [⟨.unit, "u"⟩], _⟩) rfl rfl fun d hd => by
    cases List.mem_singleton.1 hd
  have hargs : ∀ d, .type d ∈ [Arg.type (υ := Measure) span] → d.Valid c := by
    intro d hd
    cases List.mem_singleton.1 hd
    exact hspan
  have hwrong : ¬ wrong.Valid c := by
    intro h
    dsimp only [wrong] at h
    cases h with
    | array h =>
        cases h with
        | tagged hfind haccepts _ =>
            have hcolour : (c.find? "Colour").map TaggedType.params = some [] := rfl
            rw [hfind, Option.map_some, Option.some.injEq] at hcolour
            rw [TaggedType.Accepts, hcolour] at haccepts
            cases haccepts
  have hwrapper : c.DeclaresWrapper := rfl
  have htags : ∃ list, c.find? "List" = some list ∧
      list.instantiateTags c [.type span] = .ok [("Nil", none), ("Cons", some cons)] := by
    refine ⟨_, rfl, ?_⟩
    dsimp only [c, span, cons]
    rfl
  have hread : store.readType c (.record [⟨"shade", .var 0, false⟩] true) = .ok shade := rfl
  obtain ⟨-, hdeclared, hstore, -, hwritten⟩ := groundTypes_valid hwrapper
  have hcons : cons.Valid c := by
    obtain ⟨list, -, hlist⟩ := htags
    exact hdeclared list _ _ hargs hlist "Cons" cons (by simp)
  exact ⟨hwrapper, htags, hcons, hread, hstore store _ shade hread, (hwritten cons).1 hcons, hwrong,
    (hwritten wrong).2 hwrong⟩

end Tabula
