import Tabula.Name

/-!
# Declarations that may be refused
-/

namespace Tabula

/-- Why a unit or a tagged type cannot be declared. -/
inductive DeclarationError where
  | invalidName (e : InvalidName)
  /-- The name is reserved. -/
  | keyword (name : Name)
  | duplicateUnit (name : Name)
  | duplicateType (name : Name)
  /-- A variable occurs twice in the declaration of a type. -/
  | duplicateParam (param : Name) (type : Name)
  /-- A tag occurs twice in the declaration of a type. -/
  | duplicateTag (tag : Name) (type : Name)
deriving DecidableEq

/-- What is told to the user. -/
def DeclarationError.message : DeclarationError → String
  | invalidName e => e.message
  | keyword name => name.quoted ++ " is a builtin type keyword and can't be declared"
  | duplicateUnit name => "a unit named " ++ name.quoted ++ " is already declared"
  | duplicateType name => "a tagged type named " ++ name.quoted ++ " is already declared"
  | duplicateParam param type =>
      "type variable " ++ param.quoted ++ " is declared twice in " ++ type.quoted
  | duplicateTag tag type => "tag " ++ tag.quoted ++ " is declared twice in " ++ type.quoted

/-- Steps of a declaration, which may change a catalog.  The catalog after a failed step is kept. -/
abbrev DeclareM (γ : Type) := EStateM DeclarationError γ

/-- The catalog after a declaration, and what is declared or why it is refused. -/
structure Declared (γ α : Type) where
  catalog : γ
  result : Except DeclarationError α

/-- Take the steps of a declaration. -/
def Declared.run {γ α : Type} (steps : DeclareM γ α) (c : γ) : Declared γ α :=
  match steps c with
  | .ok a c => ⟨c, .ok a⟩
  | .error e c => ⟨c, .error e⟩

end Tabula
