import ShapeSchema.Struct.Basic

/-!
# Well-formed structs

What the ways to make a struct promise, by loading or from the constructors: fields and annotations
have distinct names, JSON values are well-formed, and whole-number literals have 64 bits.
-/

namespace ShapeSchema

/-- A whole-number literal is a signed 64-bit integer. -/
def Literal.InRange : Literal → Prop
  | .int i => IsInt64 i
  | _ => True

/-- The literal of a literal leaf is in range. -/
def Leaf.InRange : Leaf → Prop
  | .literal v => v.InRange
  | _ => True

/-- Annotation ids are distinct, and all values are well-formed. -/
def Metadata.WellFormed (m : Metadata) : Prop :=
  (∀ v, m.default = some v → v.WellFormed) ∧ Table.Distinct m.annotations ∧
    ∀ entry ∈ m.annotations, entry.2.WellFormed

namespace Struct

mutual

/-- Every object in the struct names each field once, and literals and metadata are well-formed. -/
def WellFormed : Struct → Prop
  | .mk (.leaf l) m => l.InRange ∧ m.WellFormed
  | .mk (.wrapper _ inner) m => WellFormed inner ∧ m.WellFormed
  | .mk (.series _ items) m => WellFormedItems items ∧ m.WellFormed
  | .mk (.object fields _) m =>
    Table.Distinct fields ∧ WellFormedFields fields ∧ m.WellFormed
termination_by structural s => s

/-- Every struct of the list is well-formed. -/
def WellFormedItems : List Struct → Prop
  | [] => True
  | s :: rest => WellFormed s ∧ WellFormedItems rest
termination_by structural ss => ss

/-- Every field's struct is well-formed. -/
def WellFormedFields : List (String × Struct) → Prop
  | [] => True
  | (_, s) :: rest => WellFormed s ∧ WellFormedFields rest
termination_by structural fields => fields

end

end Struct

end ShapeSchema
