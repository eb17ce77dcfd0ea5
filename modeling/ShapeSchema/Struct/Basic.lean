import ShapeSchema.Binary64.Basic
import ShapeSchema.Struct.Metadata

/-!
# Struct descriptions

A struct describes a set of values: a shape, which may have further structs inside, and attached
metadata. Nothing is changed in place; every annotation gives a new struct.

`Shape` is one layer, with whatever stands at the places of the inner structs as a parameter. Its
fifteen kinds fall into four families: leaves, wrappers of one struct, series of structs, and
objects with named fields.
-/

namespace ShapeSchema

/-- A single value. -/
inductive Literal where
  | null
  /-- The absent option, which no JSON value stands for. -/
  | emptyOption
  | nan
  | string (value : String)
  | int (value : Int)
  | float (value : Binary64)
  | bool (value : Bool)

/-- What an object does with keys it does not declare. -/
inductive UnknownKeys where
  /-- Refuse them. -/
  | strict
  /-- Accept and drop them. -/
  | strip
  /-- Accept and keep them. -/
  | passthrough
  deriving DecidableEq, Inhabited

/-- Shapes without inner structs. -/
inductive Leaf where
  | never
  | unknown
  | string
  | int
  | float
  | bool
  | date
  | literal (value : Literal)

/-- Shapes around one inner struct. -/
inductive Wrapper where
  | option
  | nullable
  | array
  | dict
  deriving DecidableEq

/-- Shapes made of a list of structs. -/
inductive Series where
  | tuple
  | union
  deriving DecidableEq

/-- One layer of a description; `α` stands at the places of the inner structs. -/
inductive Shape (α : Type) where
  | leaf (leaf : Leaf)
  | wrapper (wrapper : Wrapper) (inner : α)
  | series (series : Series) (items : List α)
  /-- Fields in the order of their declaration. -/
  | object (fields : List (String × α)) (unknownKeys : UnknownKeys)

/-- A shape with its metadata. -/
inductive Struct where
  | mk (shape : Shape Struct) (metadata : Metadata)

/-- The kinds of shapes, in the order in which messages list them. -/
inductive Kind where
  | never | unknown | string | int | float | bool | date
  | literal | option | nullable | array | tuple | object | union | dict
  deriving DecidableEq

namespace Kind

/-- All kinds. -/
def all : List Kind :=
  [.never, .unknown, .string, .int, .float, .bool, .date,
    .literal, .option, .nullable, .array, .tuple, .object, .union, .dict]

/-- The name of a kind. -/
def text : Kind → String
  | .never => "never"
  | .unknown => "unknown"
  | .string => "string"
  | .int => "int"
  | .float => "float"
  | .bool => "bool"
  | .date => "date"
  | .literal => "literal"
  | .option => "option"
  | .nullable => "nullable"
  | .array => "array"
  | .tuple => "tuple"
  | .object => "object"
  | .union => "union"
  | .dict => "dict"

end Kind

/-- The kind of a leaf. -/
def Leaf.kind : Leaf → Kind
  | .never => .never
  | .unknown => .unknown
  | .string => .string
  | .int => .int
  | .float => .float
  | .bool => .bool
  | .date => .date
  | .literal _ => .literal

/-- The kind of a wrapper. -/
def Wrapper.kind : Wrapper → Kind
  | .option => .option
  | .nullable => .nullable
  | .array => .array
  | .dict => .dict

/-- The kind of a series. -/
def Series.kind : Series → Kind
  | .tuple => .tuple
  | .union => .union

/-- The kind of a shape. -/
def Shape.kind {α : Type} : Shape α → Kind
  | .leaf l => l.kind
  | .wrapper w _ => w.kind
  | .series s _ => s.kind
  | .object _ _ => .object

namespace Struct

/-- The shape. -/
def shape : Struct → Shape Struct
  | .mk shape _ => shape

/-- The metadata. -/
def metadata : Struct → Metadata
  | .mk _ metadata => metadata

/-- The kind of the shape. -/
def kind (s : Struct) : Kind := s.shape.kind

/-- A leaf without metadata. -/
def leaf (l : Leaf) : Struct := .mk (.leaf l) {}

instance : Inhabited Struct := ⟨leaf .never⟩

/-- No value. -/
def never : Struct := leaf .never

/-- Any value. -/
def unknown : Struct := leaf .unknown

/-- A string. -/
def string : Struct := leaf .string

/-- A whole number of 64 bits. -/
def int : Struct := leaf .int

/-- A number. -/
def float : Struct := leaf .float

/-- A truth value. -/
def bool : Struct := leaf .bool

/-- A date, for which there is no schema. -/
def date : Struct := leaf .date

/-- Just one value. -/
def literal (value : Literal) : Struct := leaf (.literal value)

/-- A wrapper without metadata. -/
def wrapper (w : Wrapper) (inner : Struct) : Struct := .mk (.wrapper w inner) {}

/-- A value that may be absent. -/
def option (inner : Struct) : Struct := wrapper .option inner

/-- A value that may be null. -/
def nullable (inner : Struct) : Struct := wrapper .nullable inner

/-- A list of values of one description. -/
def array (inner : Struct) : Struct := wrapper .array inner

/-- An object with any keys and values of one description. -/
def dict (inner : Struct) : Struct := wrapper .dict inner

/-- A list with one description for each position. -/
def tuple (items : List Struct) : Struct := .mk (.series .tuple items) {}

/-- A value of one of several descriptions, the first that accepts it. -/
def union (variants : List Struct) : Struct := .mk (.series .union variants) {}

/-- An object with fields in this order, which drops other keys. Of a repeated name the first place
and the last description remain. -/
def object (fields : List (String × Struct)) : Struct :=
  .mk (.object (Table.ofList fields) .strip) {}

/-- Change what an object does with other keys; no other shape is affected. -/
def withUnknownKeys (policy : UnknownKeys) : Struct → Struct
  | .mk (.object fields _) metadata => .mk (.object fields policy) metadata
  | s => s

/-- Refuse other keys. -/
def strict (s : Struct) : Struct := s.withUnknownKeys .strict

/-- Keep other keys. -/
def passthrough (s : Struct) : Struct := s.withUnknownKeys .passthrough

/-- Change the metadata. -/
def mapMetadata (f : Metadata → Metadata) : Struct → Struct
  | .mk shape metadata => .mk shape (f metadata)

/-- Mark as deprecated. -/
def deprecated (s : Struct) : Struct :=
  s.mapMetadata fun m => { m with deprecation := some .flagged }

/-- Mark as deprecated, with the reason. -/
def deprecatedWithMessage (message : String) (s : Struct) : Struct :=
  s.mapMetadata fun m => { m with deprecation := some (.withMessage message) }

/-- Attach a default. -/
def withDefault (value : Json) (s : Struct) : Struct :=
  s.mapMetadata fun m => { m with default := some value }

/-- Store an annotation. -/
def annotate (id : MetadataId) (value : Json) (s : Struct) : Struct :=
  s.mapMetadata fun m => { m with annotations := Table.insert id value m.annotations }

/-- The deprecation mark. -/
def deprecation (s : Struct) : Option Deprecation := s.metadata.deprecation

/-- The default. -/
def defaultValue (s : Struct) : Option Json := s.metadata.default

/-- The annotation stored under an id. -/
def annotated? (s : Struct) (id : MetadataId) : Option Json := Table.find? id s.metadata.annotations

end Struct

end ShapeSchema
