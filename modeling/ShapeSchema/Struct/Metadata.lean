import ShapeSchema.Json.Basic

/-!
# Metadata of a struct

Deprecation and default belong to the struct itself. Everything else is kept in a side table under
ids with a namespace, so that no consumer steps on the keys of another.
-/

namespace ShapeSchema

/-- The id of an annotation, written `namespace:name`. Ids put together from parts may have any
parts; ids read from text are `Valid`. -/
structure MetadataId where
  /-- The namespace. -/
  space : String
  name : String
  deriving DecidableEq

namespace MetadataId

/-- The written form. -/
def text (id : MetadataId) : String := id.space ++ ":" ++ id.name

/-- Split at the first colon. -/
def splitColon : List Char → Option (List Char × List Char)
  | [] => none
  | c :: rest =>
    if c = ':' then some ([], rest)
    else (splitColon rest).map fun (before, after) => (c :: before, after)

/-- Read the written form: the first colon ends the namespace, and neither part may be empty. -/
def ofText? (s : String) : Option MetadataId :=
  match splitColon s.toList with
  | some (space, name) =>
    if space = [] ∨ name = [] then none else some ⟨String.ofList space, String.ofList name⟩
  | none => none

/-- Ids that their written form determines. -/
def Valid (id : MetadataId) : Prop :=
  id.space ≠ "" ∧ ':' ∉ id.space.toList ∧ id.name ≠ ""

/-- The message for a text that is no id. -/
def invalidMessage (s : String) : String :=
  "metadata id `" ++ s ++ "` must have the form `namespace:name`"

end MetadataId

/-- How a struct is marked as deprecated. -/
inductive Deprecation where
  | flagged
  | withMessage (message : String)
  deriving DecidableEq

namespace Deprecation

/-- The written form. -/
def written : Deprecation → Json
  | .flagged => .string "flagged"
  | .withMessage message => .object [("withMessage", .string message)]

end Deprecation

/-- What is attached to a struct besides its shape. -/
structure Metadata where
  deprecation : Option Deprecation := none
  /-- The default in its decoded form; it is encoded through the struct when a schema is made. -/
  default : Option Json := none
  annotations : Table MetadataId Json := []

namespace Metadata

instance : Inhabited Metadata := ⟨{}⟩

/-- Whether nothing is attached. -/
def isEmpty (m : Metadata) : Bool :=
  m.deprecation.isNone && m.default.isNone && m.annotations.isEmpty

/-- Equality: annotations compare without order. -/
def same (m n : Metadata) : Bool :=
  decide (m.deprecation = n.deprecation) &&
  (match m.default, n.default with
    | none, none => true
    | some v, some w => v.same w
    | _, _ => false) &&
  m.annotations.length == n.annotations.length &&
  m.annotations.all fun (id, v) =>
    match Table.find? id n.annotations with
    | some w => v.same w
    | none => false

/-- The entry of the written form that is there only if `value` is. -/
def presentUnder (key : String) : Option Json → List (String × Json)
  | none => []
  | some v => [(key, v)]

/-- The written form: what is absent is left out. -/
def written (m : Metadata) : Json :=
  let annotations :=
    if m.annotations.isEmpty then none
    else some (Json.object (m.annotations.map fun (id, v) => (id.text, v)))
  .object (presentUnder "deprecation" (m.deprecation.map Deprecation.written) ++
    presentUnder "default" m.default ++ presentUnder "annotations" annotations)

end Metadata

end ShapeSchema
