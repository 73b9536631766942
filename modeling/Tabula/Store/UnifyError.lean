import Tabula.Term.Outline

/-!
# Errors of unification
-/

namespace Tabula

/-- Why two terms cannot be made equal. -/
inductive UnifyError where
  | typeMismatch (expected found : Term)
  | unitMismatch (expected found : UnitTerm)
  /-- A tagged type has different numbers of arguments. -/
  | taggedArity (name : Name) (expected found : Nat)
  /-- An argument is a unit on one side and a type on the other. -/
  | argumentKind (name : Name) (position : Nat) (expected found : Kind)
  | functionArity (expected found : Nat)
  | missingField (name : Name)
  | extraField (name : Name)
  /-- A field is required on one side only. -/
  | fieldOptionality (name : Name)
  /-- The types of a field cannot be made equal. -/
  | inField (name : Name) (cause : UnifyError)
  /-- A variable would have to contain itself. -/
  | infiniteType (id : VarId) (t : Term)
  /-- The values in the store form a cycle. -/
  | cyclicStore

/-- What is told to the user. -/
def UnifyError.message : UnifyError → String
  | typeMismatch expected found =>
      "type mismatch: expected `" ++ expected.outline ++ "`, found `" ++ found.outline ++ "`"
  | unitMismatch expected found =>
      "unit mismatch: expected `" ++ UnitTerm.outline expected ++ "`, found `" ++
        UnitTerm.outline found ++ "`"
  | taggedArity name expected found =>
      "tagged type " ++ name.quoted ++ " applied to " ++ expected.repr ++ " and " ++ found.repr ++
        " argument(s)"
  | argumentKind name position expected found =>
      "argument " ++ position.repr ++ " of " ++ name.quoted ++ " is a " ++ expected.word ++
        " on one side and a " ++ found.word ++ " on the other"
  | functionArity expected found =>
      "function arity mismatch: expected " ++ expected.repr ++ " parameter(s), found " ++ found.repr
  | missingField name => "missing field " ++ name.quoted
  | extraField name => "extra field " ++ name.quoted
  | fieldOptionality name =>
      "field " ++ name.quoted ++ " is required on one side and optional on the other"
  | inField name cause => "mismatch in field " ++ name.quoted ++ ": " ++ cause.message
  | infiniteType id t =>
      "cannot construct the infinite type `?" ++ id.repr ++ " = " ++ t.outline ++ "`"
  | cyclicStore => "the assignments of the variables form a cycle"

end Tabula
