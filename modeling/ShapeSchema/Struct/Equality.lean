import ShapeSchema.Struct.Basic

/-!
# Equality of structs

Two structs are the same if they have the same shape and the same metadata, where neither the
order of the fields of an object nor that of annotations matters.
-/

namespace ShapeSchema

/-- Equality of literals: NaN is equal to itself, and the two zeros are equal. -/
def Literal.same : Literal → Literal → Bool
  | .null, .null => true
  | .emptyOption, .emptyOption => true
  | .nan, .nan => true
  | .string s, .string t => s == t
  | .int i, .int j => i == j
  | .float x, .float y => x.same y
  | .bool a, .bool b => a == b
  | _, _ => false

/-- Equality of leaves. -/
def Leaf.same : Leaf → Leaf → Bool
  | .literal v, .literal w => v.same w
  | l, m => l.kind == m.kind

namespace Struct

mutual

/-- Equality of structs. -/
def same : Struct → Struct → Bool
  | .mk (.leaf l) m, .mk (.leaf l') m' => l.same l' && m.same m'
  | .mk (.wrapper w s) m, .mk (.wrapper w' s') m' => w == w' && same s s' && m.same m'
  | .mk (.series k ss) m, .mk (.series k' ss') m' => k == k' && sameItems ss ss' && m.same m'
  | .mk (.object fs u) m, .mk (.object fs' u') m' =>
    fs.length == fs'.length && sameFields fs fs' && u == u' && m.same m'
  | _, _ => false
termination_by structural s => s

/-- Equality of lists of structs, position by position. -/
def sameItems : List Struct → List Struct → Bool
  | [], [] => true
  | s :: rest, s' :: rest' => same s s' && sameItems rest rest'
  | _, _ => false
termination_by structural ss => ss

/-- Whether each field has its equal in the table. -/
def sameFields : List (String × Struct) → Table String Struct → Bool
  | [], _ => true
  | (name, s) :: rest, table =>
    (match Table.find? name table with
      | some s' => same s s'
      | none => false) && sameFields rest table
termination_by structural fields => fields

end

end Struct

end ShapeSchema
