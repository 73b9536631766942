import Tabula.Ascending
import Tabula.Name

/-!
# Fields of record types

A record type lists its fields in ascending order of their names.  A field that is not required may be
missing from a record.
-/

namespace Tabula

/-- A field of a record type whose types are of the sort `τ`. -/
structure Field (τ : Type) where
  name : Name
  type : τ
  required : Bool

namespace Field

variable {τ : Type}

/-- The fields in order; of two fields with the same name the later one stays. -/
def ofList (fields : List (Field τ)) : List (Field τ) :=
  Ascending.ofList Field.name fields

/-- Add a field, in place of any field of the same name. -/
def insert (field : Field τ) (fields : List (Field τ)) : List (Field τ) :=
  Ascending.insert Field.name field fields

/-- The field with this name. -/
def find? (name : Name) (fields : List (Field τ)) : Option (Field τ) :=
  Ascending.find? Field.name name fields

end Field

end Tabula
