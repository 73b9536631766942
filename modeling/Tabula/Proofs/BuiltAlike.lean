import Tabula.Proofs.Equality
import Tabula.Proofs.UnifySteps

/-!
# Terms that are built alike

Two terms are built alike if they are made in the same way from parts that are related.  What
`Term.demand` asks for is just this, with the equations as the relation, as long as records are complete and
list their fields in order.

Open records are left out: they accept fields of the other side that they do not have, so what is demanded of
them is no equality.  All that is said of them is that a record, open or not, accepts itself.
-/

namespace Tabula

open List (Forall₂)

variable {H : Term → Term → Prop} {K : UnitTerm → UnitTerm → Prop}

/-- The equation holds, if `H` says when terms are equal and `K` says when units are equal. -/
def Equation.Holds (H : Term → Term → Prop) (K : UnitTerm → UnitTerm → Prop) : Equation → Prop
  | .types _ e f => H e f
  | .units u v => K u v
  | .failure _ => False

namespace Term

/-- The terms are made in the same way from parts that are related, terms by `H` and units by `K`. -/
inductive Alike (H : Term → Term → Prop) (K : UnitTerm → UnitTerm → Prop) : Term → Term → Prop where
  | var (id : VarId) : Alike H K (.var id) (.var id)
  | primitive (p : Primitive) : Alike H K (.primitive p) (.primitive p)
  | number {u v : UnitTerm} (h : K u v) : Alike H K (.number u) (.number v)
  | tagged {name : Name} {as bs : List (Arg UnitTerm Term)} (h : Forall₂ (Arg.Agree K H) as bs) :
      Alike H K (.tagged name as) (.tagged name bs)
  | record {fields fields' : List (Field Term)} {complete : Bool} (h : Forall₂ (Field.Agree H) fields fields') :
      Alike H K (.record fields complete) (.record fields' complete)
  | array {s t : Term} (h : H s t) : Alike H K (.array s) (.array t)
  | function {params params' : List Term} {result result' : Term} (hparams : Forall₂ H params params')
      (hresult : H result result') : Alike H K (.function params result) (.function params' result')

namespace Alike

variable {H' : Term → Term → Prop} {K' : UnitTerm → UnitTerm → Prop} {e f t : Term}

/-- The terms change sides if their parts can. -/
theorem converse (h : Alike H K e f) (hH : ∀ s t, H s t → H' t s) (hK : ∀ u v, K u v → K' v u) :
    Alike H' K' f e := by
  cases h with
  | var id => exact .var id
  | primitive p => exact .primitive p
  | number h => exact .number (hK _ _ h)
  | tagged h =>
      refine .tagged (h.flip.imp fun a b hab => ?_)
      cases hab with
      | unit h => exact .unit (hK _ _ h)
      | type h => exact .type (hH _ _ h)
  | record h =>
      exact .record (h.flip.imp fun f g hfg => ⟨hfg.name.symm, hH _ _ hfg.type, hfg.required.symm⟩)
  | array h => exact .array (hH _ _ h)
  | function hparams hresult => exact .function (hparams.flip.imp fun _ _ h => hH _ _ h) (hH _ _ hresult)

/-- A term is built like itself from parts that are related to themselves. -/
theorem self (hunits : ∀ u ∈ t.units, K u u) (hchildren : ∀ c ∈ t.children, H c c) : Alike H K t t := by
  cases t with
  | var id => exact .var id
  | primitive p => exact .primitive p
  | number u => exact .number (hunits u List.mem_cons_self)
  | tagged name args =>
      refine .tagged (List.forall₂_same.2 fun a ha => ?_)
      cases a with
      | unit u => exact .unit (hunits u (mem_units_tagged.2 ha))
      | type t => exact .type (hchildren t (mem_children_tagged.2 ha))
  | record fields complete =>
      exact .record (List.forall₂_same.2 fun f hf => ⟨rfl, hchildren f.type (List.mem_map_of_mem hf), rfl⟩)
  | array element => exact .array (hchildren element List.mem_cons_self)
  | function params result =>
      refine .function (List.forall₂_same.2 fun t ht => hchildren t (List.mem_append_left _ ht)) ?_
      exact hchildren result (List.mem_append_right _ List.mem_cons_self)

end Alike

/-- If the term is a record, it is complete and its fields are in order. -/
def Regular (t : Term) : Prop :=
  ∀ fields complete, t = .record fields complete → complete = true ∧ Ascending Field.name fields

theorem argEquations_hold_iff {name : Name} {position : Nat} {as bs : List (Arg UnitTerm Term)}
    (hlength : as.length = bs.length) :
    (∀ q ∈ argEquations name position as bs, q.Holds H K) ↔ Forall₂ (Arg.Agree K H) as bs := by
  induction as generalizing position bs with
  | nil =>
      obtain rfl := List.length_eq_zero_iff.1 hlength.symm
      simp [argEquations]
  | cons a as ih =>
      cases bs with
      | nil => cases hlength
      | cons b bs =>
          rw [List.forall₂_cons, ← @ih (position + 1) bs (Nat.succ.inj hlength)]
          cases a with
          | unit u =>
              cases b with
              | unit v =>
                  rw [argEquations, List.forall_mem_cons]
                  exact and_congr_left fun _ => ⟨fun h => .unit h, fun h => by cases h; assumption⟩
              | type t =>
                  exact iff_of_false (fun h => List.forall_mem_singleton.1 h) fun h => by cases h.1
          | type s =>
              cases b with
              | unit v =>
                  exact iff_of_false (fun h => List.forall_mem_singleton.1 h) fun h => by cases h.1
              | type t =>
                  rw [argEquations, List.forall_mem_cons]
                  exact and_congr_left fun _ => ⟨fun h => .type h, fun h => by cases h; assumption⟩

theorem paramEquations_hold_iff {ss ts : List Term} (hlength : ss.length = ts.length) :
    (∀ q ∈ paramEquations ss ts, q.Holds H K) ↔ Forall₂ H ss ts := by
  induction ss generalizing ts with
  | nil =>
      obtain rfl := List.length_eq_zero_iff.1 hlength.symm
      simp [paramEquations]
  | cons s ss ih =>
      cases ts with
      | nil => cases hlength
      | cons t ts =>
          rw [paramEquations, List.forall_mem_cons, List.forall₂_cons, ih (Nat.succ.inj hlength)]
          rfl

theorem fieldEquations_hold_iff {expected found : List (Field Term)} (hexpected : Ascending Field.name expected) :
    (∀ q ∈ fieldEquations expected true found, q.Holds H K) ↔
      ∀ g ∈ found, ∃ f ∈ expected, Field.Agree H f g := by
  induction found with
  | nil => simp [fieldEquations]
  | cons g found ih =>
      rw [fieldEquations, List.forall_mem_cons, ← ih]
      cases hfind : Field.find? g.name expected with
      | none =>
          refine iff_of_false (fun h => List.forall_mem_singleton.1 h) ?_
          rintro ⟨⟨f, hf, hfg⟩, -⟩
          exact Ascending.find?_eq_none_iff.1 hfind (hfg.name ▸ List.mem_map_of_mem hf)
      | some f =>
          obtain ⟨hf, hname⟩ := Ascending.of_find?_eq_some hfind
          have hunique : ∀ f' ∈ expected, f'.name = g.name → f' = f := by
            intro f' hf' hname'
            have hfind' := Ascending.find?_of_mem hexpected hf'
            rw [hname'] at hfind'
            exact Option.some.inj (hfind'.symm.trans hfind)
          dsimp only
          split
          · rename_i hrequired
            rw [List.forall_mem_cons]
            refine and_congr_left fun _ => ⟨fun h => ⟨f, hf, hname, h, hrequired⟩, ?_⟩
            rintro ⟨f', hf', hfg⟩
            obtain rfl := hunique f' hf' hfg.name
            exact hfg.type
          · rename_i hrequired
            refine iff_of_false (fun h => List.forall_mem_singleton.1 h) ?_
            rintro ⟨⟨f', hf', hfg⟩, -⟩
            obtain rfl := hunique f' hf' hfg.name
            exact hrequired hfg.required

theorem missingEquations_hold_iff {expected found : List (Field Term)} :
    (∀ q ∈ missingEquations expected found true, q.Holds H K) ↔
      ∀ f ∈ expected, ∃ g ∈ found, g.name = f.name := by
  have hmissing : UnifyM.missingField? expected found = none ↔ ∀ f ∈ expected, ∃ g ∈ found, g.name = f.name := by
    simp [UnifyM.missingField?, Field.find?, Ascending.find?_eq_none_iff]
  rw [← hmissing]
  unfold missingEquations
  split
  · rename_i field hfield
    refine iff_of_false (fun h => List.forall_mem_singleton.1 h) fun h => ?_
    rw [hfield] at h
    cases h
  · rename_i hnone
    exact iff_of_true (by simp) hnone

theorem recordEquations_hold_iff {expected found : List (Field Term)} (hexpected : Ascending Field.name expected)
    (hfound : Ascending Field.name found) :
    (∀ q ∈ fieldEquations expected true found ++ missingEquations expected found true, q.Holds H K) ↔
      Forall₂ (Field.Agree H) expected found := by
  rw [List.forall_mem_append, fieldEquations_hold_iff hexpected, missingEquations_hold_iff]
  constructor
  · rintro ⟨hright, hleft⟩
    refine Ascending.forall₂_of_keys hexpected hfound (fun g hg => ?_) hleft
    obtain ⟨f, hf, hfg⟩ := hright g hg
    exact ⟨f, hf, hfg.name, hfg⟩
  · intro h
    refine ⟨exists_of_forall₂ h, fun f hf => ?_⟩
    obtain ⟨g, hg, hgf⟩ := exists_of_forall₂ h.flip f hf
    exact ⟨g, hg, hgf.name.symm⟩

/-- Two terms demand that they are built alike from equal parts. -/
theorem demand_hold_iff {e f : Term} {qs : List Equation} (he : e.Regular) (hf : f.Regular)
    (h : e.demand f = .equations qs) : (∀ q ∈ qs, q.Holds H K) ↔ Alike H K e f := by
  unfold demand at h
  split at h
  · rename_i id other
    split at h
    · rename_i heq
      cases h
      cases heq
      exact iff_of_true (by simp) (.var id)
    · cases h
  · cases h
  · cases h
  · cases h
    rw [List.forall_mem_singleton]
    exact ⟨.number, fun h => by cases h; assumption⟩
  · rename_i p q
    cases h
    split
    · rename_i heq
      cases heq
      exact iff_of_true (by simp) (.primitive p)
    · rename_i hne
      exact iff_of_false (fun h => List.forall_mem_singleton.1 h) fun h => by cases h; exact hne rfl
  · cases h
    split
    · rename_i heq
      cases heq
      split
      · rename_i hlength
        rw [argEquations_hold_iff hlength]
        exact ⟨.tagged, fun h => by cases h; assumption⟩
      · rename_i hlength
        refine iff_of_false (fun h => List.forall_mem_singleton.1 h) fun h => ?_
        cases h with
        | tagged h => exact hlength h.length_eq
    · rename_i hne
      exact iff_of_false (fun h => List.forall_mem_singleton.1 h) fun h => by cases h; exact hne rfl
  · cases h
    obtain ⟨rfl, hexpected⟩ := he _ _ rfl
    obtain ⟨rfl, hfound⟩ := hf _ _ rfl
    rw [recordEquations_hold_iff hexpected hfound]
    exact ⟨.record, fun h => by cases h; assumption⟩
  · cases h
    rw [List.forall_mem_singleton]
    exact ⟨.array, fun h => by cases h; assumption⟩
  · cases h
    split
    · rename_i hlength
      rw [List.forall_mem_append, paramEquations_hold_iff hlength, List.forall_mem_singleton]
      exact ⟨fun h => .function h.1 h.2, fun h => by cases h; exact ⟨‹_›, ‹_›⟩⟩
    · rename_i hlength
      refine iff_of_false (fun h => List.forall_mem_singleton.1 h) fun h => ?_
      cases h with
      | function h => exact hlength h.length_eq
  · rename_i hvar _ hnumber hprimitive htagged hrecord harray hfunction
    cases h
    refine iff_of_false (fun h => List.forall_mem_singleton.1 h) fun h => ?_
    cases h with
    | var id => exact hvar id rfl
    | primitive p => exact hprimitive p p rfl rfl
    | number _ => exact hnumber _ _ rfl rfl
    | tagged _ => exact htagged _ _ _ _ rfl rfl
    | record _ => exact hrecord _ _ _ _ rfl rfl
    | array _ => exact harray _ _ rfl rfl
    | function _ _ => exact hfunction _ _ _ _ rfl rfl

/-- A record accepts its own fields, also if it is left open. -/
theorem recordEquations_self {fields : List (Field Term)} {complete : Bool}
    (hfields : Ascending Field.name fields) :
    ∀ q ∈ fieldEquations fields complete fields ++ missingEquations fields fields complete, q.Holds Eq Eq := by
  have hfind : ∀ f ∈ fields, Field.find? f.name fields = some f := fun f hf => Ascending.find?_of_mem hfields hf
  have hown : ∀ found : List (Field Term), (∀ f ∈ found, f ∈ fields) →
      ∀ q ∈ fieldEquations fields complete found, q.Holds Eq Eq := by
    intro found
    induction found with
    | nil => simp [fieldEquations]
    | cons f found ih =>
        intro hmem
        obtain ⟨hf, hfound⟩ := List.forall_mem_cons.1 hmem
        rw [fieldEquations, hfind f hf]
        dsimp only
        rw [if_pos rfl]
        exact List.forall_mem_cons.2 ⟨rfl, ih hfound⟩
  have hnone : UnifyM.missingField? fields fields = none := by
    refine List.find?_eq_none.2 fun f hf => ?_
    rw [hfind f hf]
    simp
  refine List.forall_mem_append.2 ⟨hown fields fun _ h => h, ?_⟩
  rw [missingEquations, hnone]
  simp

/-- A term demands nothing of itself but that its parts are what they are. -/
theorem demand_self {t : Term} (h : ∀ fields complete, t = .record fields complete → Ascending Field.name fields) :
    ∃ qs, t.demand t = .equations qs ∧ ∀ q ∈ qs, q.Holds Eq Eq := by
  cases t with
  | var id => exact ⟨[], by rw [demand, if_pos rfl], by simp⟩
  | primitive p => exact ⟨[], by rw [demand, if_pos rfl], by simp⟩
  | number u => exact ⟨_, rfl, List.forall_mem_singleton.2 rfl⟩
  | tagged name args =>
      refine ⟨argEquations name 0 args args, by rw [demand, if_pos rfl, if_pos rfl], ?_⟩
      refine (argEquations_hold_iff rfl).2 (List.forall₂_same.2 fun a _ => ?_)
      cases a with
      | unit u => exact .unit rfl
      | type t => exact .type rfl
  | record fields complete => exact ⟨_, rfl, recordEquations_self (h fields complete rfl)⟩
  | array element => exact ⟨_, rfl, List.forall_mem_singleton.2 rfl⟩
  | function params result =>
      refine ⟨paramEquations params params ++ [.types none result result], by rw [demand, if_pos rfl], ?_⟩
      refine List.forall_mem_append.2 ⟨?_, List.forall_mem_singleton.2 rfl⟩
      exact (paramEquations_hold_iff rfl).2 (List.forall₂_same.2 fun _ _ => rfl)

/-- Equations are demanded of equal variables or of terms of which neither is a variable. -/
theorem demand_equations_cases {e f : Term} {qs : List Equation} (h : e.demand f = .equations qs) :
    (∃ id, e = .var id ∧ f = .var id) ∨ (∀ id, e ≠ .var id) ∧ ∀ id, f ≠ .var id := by
  cases e with
  | var id =>
      cases f with
      | var other =>
          rw [demand] at h
          split at h
          · rename_i heq
            exact .inl ⟨id, rfl, congrArg var heq.symm⟩
          · cases h
      | _ => cases h
  | _ =>
      cases f with
      | var id => cases h
      | _ => exact .inr ⟨fun _ heq => (by cases heq), fun _ heq => (by cases heq)⟩

theorem demand_value_ne {e f t : Term} {id : VarId} (h : e.demand f = .value id t) : t ≠ .var id := by
  rintro rfl
  rcases demand_value_cases h with ⟨rfl, rfl⟩ | ⟨rfl, rfl⟩
  · simp [demand] at h
  · simp [demand] at h

end Term

end Tabula
