import ShapeSchema.Struct.Basic

/-!
# The written form of structs

A struct is written as a JSON object with its shape and, if there is any, its metadata; a shape as
an object with its kind and its content, if the kind has content.
-/

namespace ShapeSchema

/-- A literal: the bare name of its variant, or the name with the value. A number that is not
finite is lost. -/
def Literal.written : Literal → Json
  | .null => .string "null"
  | .emptyOption => .string "emptyOption"
  | .nan => .string "nan"
  | .string s => .object [("string", .string s)]
  | .int i => .object [("int", .int i)]
  | .float x => .object [("float", .float x)]
  | .bool b => .object [("bool", .bool b)]

/-- The name of a policy. -/
def UnknownKeys.text : UnknownKeys → String
  | .strict => "strict"
  | .strip => "strip"
  | .passthrough => "passthrough"

/-- A policy. -/
def UnknownKeys.written (policy : UnknownKeys) : Json := .string policy.text

/-- A shape of the given kind with its content. -/
def Kind.written (kind : Kind) : Option Json → Json
  | none => .object [("kind", .string kind.text)]
  | some content => .object [("kind", .string kind.text), ("of", content)]

/-- A leaf as a shape; only literals have content. -/
def Leaf.written : Leaf → Json
  | .literal value => Kind.literal.written (some value.written)
  | l => l.kind.written none

namespace Struct

/-- A written shape with metadata, which is left out if it is empty. -/
def withMetadata (shape : Json) (m : Metadata) : Json :=
  .object (("shape", shape) ::
    Metadata.presentUnder "metadata" (if m.isEmpty then none else some m.written))

mutual

/-- The written form of a struct. -/
def written : Struct → Json
  | .mk shape m => withMetadata (writtenShape shape) m
termination_by structural s => s

/-- The written form of a shape. -/
def writtenShape : Shape Struct → Json
  | .leaf l => l.written
  | .wrapper w inner => w.kind.written (some inner.written)
  | .series k items => k.kind.written (some (.array (writtenItems items)))
  | .object fields policy => Kind.object.written (some (.object
      [("fields", .object (writtenFields fields)), ("unknownKeys", policy.written)]))
termination_by structural shape => shape

/-- The written forms of several structs. -/
def writtenItems : List Struct → List Json
  | [] => []
  | s :: rest => s.written :: writtenItems rest
termination_by structural ss => ss

/-- Fields, with their structs in written form. -/
def writtenFields : List (String × Struct) → List (String × Json)
  | [] => []
  | (name, s) :: rest => (name, s.written) :: writtenFields rest
termination_by structural fields => fields

end

end Struct

end ShapeSchema
