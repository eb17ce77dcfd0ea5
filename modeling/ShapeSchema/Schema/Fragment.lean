import ShapeSchema.Json.Basic
import ShapeSchema.Struct.Metadata

/-!
# Schema fragments

The pieces of which JSON Schema documents (draft-07) are put together, one builder for each kind of
shape. The order of the keys is part of the result.
-/

namespace ShapeSchema

/-- A schema as a table of its keywords. -/
abbrev Fragment := Table String Json

namespace Fragment

/-- The dialect in which all documents are written. -/
def dialect : String := "http://json-schema.org/draft-07/schema#"

/-- A schema with a type. -/
def ofType (name : String) : Fragment := [("type", .string name)]

/-- Everything is valid. -/
def empty : Fragment := []

/-- Nothing is valid. -/
def never : Fragment := [("not", .object [])]

/-- Strings. -/
def string : Fragment := ofType "string"

/-- Whole numbers. -/
def integer : Fragment := ofType "integer"

/-- Numbers. -/
def number : Fragment := ofType "number"

/-- Truth values. -/
def boolean : Fragment := ofType "boolean"

/-- Null. -/
def null : Fragment := ofType "null"

/-- Several fragments as a JSON array. -/
def list (fragments : List Fragment) : Json := .array (fragments.map .object)

/-- What one of the fragments admits. -/
def anyOf (variants : List Fragment) : Fragment := [("anyOf", list variants)]

/-- What the fragment admits, and null. -/
def nullable (inner : Fragment) : Fragment := anyOf [inner, null]

/-- Arrays of items of one kind. -/
def array (inner : Fragment) : Fragment := [("items", .object inner), ("type", .string "array")]

/-- Arrays with one fragment for each position. -/
def tuple (items : List Fragment) : Fragment :=
  [("items", list items), ("type", .string "array"),
    ("minItems", .nat items.length), ("maxItems", .nat items.length)]

/-- Objects with values of one kind. -/
def dict (inner : Fragment) : Fragment :=
  [("type", .string "object"), ("additionalProperties", .object inner)]

/-- Objects with these properties. Without required names there is no `required`. -/
def record (properties : Fragment) (additional : Bool) (required : List String) : Fragment :=
  [("type", .string "object"), ("properties", .object properties),
    ("additionalProperties", .bool additional)] ++
  (if required.isEmpty then [] else [("required", .array (required.map .string))])

/-- One string. -/
def stringConst (value : String) : Fragment :=
  [("type", .string "string"), ("const", .string value)]

/-- One whole number. -/
def integerConst (value : Int) : Fragment := [("type", .string "integer"), ("const", .int value)]

/-- One number; one that is not finite becomes null. -/
def numberConst (value : Binary64) : Fragment :=
  [("type", .string "number"), ("const", .float value)]

/-- One truth value. -/
def booleanConst (value : Bool) : Fragment :=
  [("type", .string "boolean"), ("const", .bool value)]

/-- The keyword of what is deprecated. -/
def deprecated : Fragment := [("deprecated", .bool true)]

/-- The keywords of what is deprecated for a stated reason. -/
def deprecatedWithMessage (message : String) : Fragment :=
  [("deprecated", .bool true), ("description", .string message)]

/-- The keywords of a deprecation mark. -/
def ofDeprecation : Deprecation → Fragment
  | .flagged => deprecated
  | .withMessage message => deprecatedWithMessage message

/-- The keyword of a default. -/
def defaultValue (value : Json) : Fragment := [("default", value)]

/-- A whole document: the dialect comes first and stays, whatever the root says. -/
def document (root : Fragment) : Fragment :=
  Table.insert "$schema" (.string dialect)
    (Table.merge [("$schema", .string dialect)] root)

end Fragment

end ShapeSchema
