/-!
# Computations that can fail

How a computation of several steps comes to succeed, and when two computations give the same although their
errors differ.
-/

namespace Tabula

variable {ε ε' ε'' α β : Type} {x : Except ε α} {y : Except ε' α} {z : Except ε'' α}

/-- Two steps succeed if the first one does and the second one does with its result. -/
theorem bind_eq_ok_iff {f : α → Except ε β} {b : β} : x >>= f = .ok b ↔ ∃ a, x = .ok a ∧ f a = .ok b := by
  cases x <;> simp [bind, Except.bind]

/-- What is done to a result does not make a computation fail. -/
theorem map_eq_ok_iff {f : α → β} {b : β} : x.map f = .ok b ↔ ∃ a, x = .ok a ∧ f a = b := by
  cases x <;> simp [Except.map]

/-- Errors are of no account to a computation that succeeds. -/
theorem mapError_eq_ok_iff {f : ε → ε'} {a : α} : x.mapError f = .ok a ↔ x = .ok a := by
  cases x with
  | error e => exact iff_of_false (fun h => by cases h) fun h => by cases h
  | ok b => exact ⟨fun h => congrArg Except.ok (Except.ok.inj h), fun h => congrArg Except.ok (Except.ok.inj h)⟩

/-- Two steps fail with the error of the step that fails, and the first one goes first. -/
theorem bind_eq_error_iff {f : α → Except ε β} {e : ε} :
    x >>= f = .error e ↔ x = .error e ∨ ∃ a, x = .ok a ∧ f a = .error e := by
  cases x <;> simp [bind, Except.bind]

/-- What is done to a result does not change an error. -/
theorem map_eq_error_iff {f : α → β} {e : ε} : x.map f = .error e ↔ x = .error e := by
  cases x <;> simp [Except.map]

/-- An error comes from an error of the computation. -/
theorem mapError_eq_error_iff {f : ε → ε'} {e : ε'} : x.mapError f = .error e ↔ ∃ d, x = .error d ∧ f d = e := by
  cases x with
  | error d =>
      constructor
      · exact fun h => ⟨d, rfl, Except.error.inj h⟩
      · rintro ⟨_, ⟨⟩, h⟩
        exact congrArg Except.error h
  | ok a => exact iff_of_false (fun h => by cases h) fun ⟨_, h, _⟩ => by cases h

/-- Results can be compared without comparing errors. -/
theorem toOption_eq_some_iff {a : α} : x.toOption = some a ↔ x = .ok a := by
  cases x <;> simp [Except.toOption]

/-- The first computation gives at most what the second one gives. -/
def AtMost (x : Except ε α) (y : Except ε' α) : Prop :=
  ∀ a, x = .ok a → y = .ok a

namespace AtMost

theorem refl (x : Except ε α) : AtMost x x :=
  fun _ h => h

theorem trans (h : AtMost x y) (h' : AtMost y z) : AtMost x z :=
  fun a ha => h' a (h a ha)

/-- A computation that fails gives at most anything. -/
theorem of_error {e : ε} : AtMost (.error e) y :=
  nofun

/-- Steps that give at most the same make computations that do. -/
theorem bind {f : α → Except ε β} {g : α → Except ε' β} (h : AtMost x y) (hfg : ∀ a, AtMost (f a) (g a)) :
    AtMost (x >>= f) (y >>= g) := by
  intro b hb
  cases x with
  | error e => cases hb
  | ok a =>
      rw [h a rfl]
      exact hfg a b hb

theorem map (h : AtMost x y) (f : α → β) : AtMost (x.map f) (y.map f) := by
  intro b hb
  cases x with
  | error e => cases hb
  | ok a =>
      cases hb
      rw [h a rfl]
      rfl

end AtMost

/-- The two computations give the same, unless they fail. -/
structure SameResult (x : Except ε α) (y : Except ε' α) : Prop where
  forward : AtMost x y
  backward : AtMost y x

namespace SameResult

theorem refl (x : Except ε α) : SameResult x x :=
  ⟨.refl x, .refl x⟩

theorem symm (h : SameResult x y) : SameResult y x :=
  ⟨h.backward, h.forward⟩

theorem trans (h : SameResult x y) (h' : SameResult y z) : SameResult x z :=
  ⟨h.forward.trans h'.forward, h'.backward.trans h.backward⟩

theorem ok (a : α) : SameResult (.ok a : Except ε α) (.ok a : Except ε' α) :=
  ⟨fun _ h => by cases h; rfl, fun _ h => by cases h; rfl⟩

/-- Two computations that fail give the same, whatever their errors are. -/
theorem of_errors {e : ε} {e' : ε'} : SameResult (.error e : Except ε α) (.error e' : Except ε' α) :=
  ⟨.of_error, .of_error⟩

/-- With other errors a computation gives the same. -/
theorem mapError (x : Except ε α) (f : ε → ε') : SameResult (x.mapError f) x :=
  ⟨fun _ h => mapError_eq_ok_iff.1 h, fun _ h => mapError_eq_ok_iff.2 h⟩

/-- Steps that give the same make computations that do. -/
theorem bind {f : α → Except ε β} {g : α → Except ε' β} (h : SameResult x y)
    (hfg : ∀ a, SameResult (f a) (g a)) : SameResult (x >>= f) (y >>= g) :=
  ⟨h.forward.bind fun a => (hfg a).forward, h.backward.bind fun a => (hfg a).backward⟩

theorem map (h : SameResult x y) (f : α → β) : SameResult (x.map f) (y.map f) :=
  ⟨h.forward.map f, h.backward.map f⟩

/-- Computations that give the same differ in their errors only. -/
theorem toOption_eq (h : SameResult x y) : x.toOption = y.toOption := by
  refine Option.ext fun a => ?_
  rw [toOption_eq_some_iff, toOption_eq_some_iff]
  exact ⟨h.forward a, h.backward a⟩

end SameResult

section Stepwise

variable {R : (α : Type) → Except ε α → Except ε α → Prop}

/-- The relation passes from the steps of computations to the computations.  Equality is such a relation; so is to give
at most the same, and to give the same unless both fail. -/
structure Stepwise (R : (α : Type) → Except ε α → Except ε α → Prop) : Prop where
  refl {α : Type} (x : Except ε α) : R α x x
  bind {α β : Type} {x y : Except ε α} {f g : α → Except ε β} (h : R α x y) (hfg : ∀ a, R β (f a) (g a)) :
    R β (x >>= f) (y >>= g)

/-- What is done to the results keeps the relation. -/
theorem Stepwise.map (hR : Stepwise R) {α β : Type} {x y : Except ε α} (h : R α x y) (f : α → β) :
    R β (x.map f) (y.map f) := by
  have hbind := hR.bind h fun a => hR.refl (.ok (f a))
  cases x <;> cases y <;> exact hbind

theorem stepwise_eq : Stepwise fun α (x y : Except ε α) => x = y where
  refl _ := rfl
  bind h hfg := by rw [h, funext hfg]

theorem stepwise_atMost : Stepwise fun α (x y : Except ε α) => AtMost x y where
  refl := .refl
  bind := .bind

theorem stepwise_sameResult : Stepwise fun α (x y : Except ε α) => SameResult x y where
  refl := .refl
  bind := .bind

end Stepwise

end Tabula
