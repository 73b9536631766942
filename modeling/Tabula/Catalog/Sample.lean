import Tabula.Catalog.Basic

/-!
# A sample catalog

The builtin units and a few tagged types of different shapes: sums, products, a unit parameter, an
enumeration and a recursive type.
-/

namespace Tabula

namespace Catalog

/-- The tagged types of the sample, in the order of their declarations. -/
def sampleTypes : List TaggedType :=
  [ { name := "Either"
      params := [⟨.type, "a"⟩, ⟨.type, "b"⟩]
      tags := [⟨"Left", some (.ident "a")⟩, ⟨"Right", some (.ident "b")⟩] },
    { name := "Pair"
      params := [⟨.type, "a"⟩, ⟨.type, "b"⟩]
      tags :=
        [⟨"Pair", some (.recordOf [⟨"first", .ident "a", true⟩, ⟨"second", .ident "b", true⟩] true)⟩] },
    { name := "Measured"
      params := [⟨.unit, "u"⟩]
      tags := [⟨"Value", some (.number (.single (.var "u")))⟩] },
    { name := "Colour"
      params := []
      tags := [⟨"Red", none⟩, ⟨"Green", none⟩, ⟨"Blue", none⟩] },
    { name := "List"
      params := [⟨.type, "a"⟩]
      tags :=
        [ ⟨"Nil", none⟩,
          ⟨"Cons", some (.recordOf
            [⟨"head", .ident "a", true⟩, ⟨"tail", .apply "List" [.type (.ident "a")], true⟩] true)⟩ ] } ]

/-- The catalog with the builtin units and the types of the sample. -/
def sample : Catalog :=
  { builtin with entries := builtin.entries ++ sampleTypes.map .named }

end Catalog

end Tabula
