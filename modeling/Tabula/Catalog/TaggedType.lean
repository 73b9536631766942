import Tabula.Bindings
import Tabula.GroundType

/-!
# Tagged types

A tagged type is declared with parameters and tags: `Optional` has a type parameter and the tags `None` and
`Is`, of which the second carries a value.  It is instantiated with arguments that match the parameters in
number and in kind.
-/

namespace Tabula

/-- A parameter of a tagged type. -/
structure Param where
  kind : Kind
  name : Name
deriving DecidableEq

/-- A tag, and the type of the value it carries. -/
structure Tag where
  name : Name
  payload : Option Scheme

/-- The declaration of a tagged type. -/
structure TaggedType where
  name : Name
  params : List Param
  tags : List Tag

/-- How arguments do not match the parameters. -/
inductive ArgumentMismatch where
  | arity (expected found : Nat)
  | kind (position : Nat) (expected found : Kind)
deriving DecidableEq

/-- The arguments of a tagged type do not match its parameters. -/
structure ArgumentError where
  typeName : Name
  mismatch : ArgumentMismatch
deriving DecidableEq

/-- What is told to the user. -/
def ArgumentError.message (e : ArgumentError) : String :=
  "cannot instantiate tagged type " ++ e.typeName.quoted ++ ": " ++
    match e.mismatch with
    | .arity expected found =>
        "expected " ++ expected.repr ++ " argument(s), found " ++ found.repr
    | .kind position expected found =>
        "the argument at index " ++ position.repr ++ " should be a " ++ expected.word ++
          ", found a " ++ found.word

namespace TaggedType

/-- The first position, counted from `position`, at which the kinds of parameters and arguments differ. -/
def kindMismatch? {υ τ : Type} (position : Nat) : List Param → List (Arg υ τ) → Option ArgumentMismatch
  | param :: params, arg :: args =>
      if param.kind = arg.kind then kindMismatch? (position + 1) params args
      else some (.kind position param.kind arg.kind)
  | _, _ => none

/-- How the arguments fail to match the parameters; a wrong number is reported first. -/
def mismatch? {υ τ : Type} (d : TaggedType) (args : List (Arg υ τ)) : Option ArgumentMismatch :=
  if d.params.length = args.length then kindMismatch? 0 d.params args
  else some (.arity d.params.length args.length)

/-- The type with these arguments. -/
def instantiate (d : TaggedType) (args : List (Arg Measure GroundType)) :
    Except ArgumentError GroundType :=
  match d.mismatch? args with
  | none => .ok (.tagged d.name args)
  | some m => .error ⟨d.name, m⟩

/-- The parameters bound to these arguments. -/
def substitution (d : TaggedType) (args : List (Arg Measure GroundType)) :
    Except ArgumentError (Bindings Measure GroundType) :=
  match d.mismatch? args with
  | none =>
      .ok ((d.params.zip args).foldl (fun b p => b.insert p.1.name p.2) .empty)
  | some m => .error ⟨d.name, m⟩

end TaggedType

end Tabula
