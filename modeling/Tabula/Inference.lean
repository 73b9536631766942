import Tabula.Store.Readback
import Tabula.Store.Unify

/-!
# Inference

A generic type with variables is matched against another type, and the values of the variables are read off.
-/

namespace Tabula

/-- Why no values of the variables were found. -/
inductive InferenceError where
  | binding (e : BindingError)
  | unify (e : UnifyError)
  | read (e : ReadError)

/-- The values of the variables `vars` that make the type `generic` equal to the type `concrete`, in which
they do not count as variables. -/
def infer (c : Catalog) (vars : List Param) (generic concrete : Scheme) :
    Except InferenceError Substitution := do
  let (bindings, store) := Store.empty.bindFresh .empty vars
  let expected ← (generic.toTerm bindings).mapError .binding
  let found ← (concrete.toTerm .empty).mapError .binding
  let attempt := store.unify expected found
  attempt.result.mapError .unify
  (attempt.store.solve c bindings).mapError .read

end Tabula
