/-!
# Settings of a conversion
-/

namespace ShapeSchema

/-- How a conversion is done. -/
structure Config where
  /-- How many structs inside each other are looked at; the default is enough for anything written
  by hand. -/
  maxDepth : Nat := 128
  deriving DecidableEq

instance : Inhabited Config := ⟨{}⟩

end ShapeSchema
