import ShapeSchema.Schema.Conversion
import ShapeSchema.Schema.Encoding
import ShapeSchema.Schema.Fragment

/-!
# Lowering structs to schemas

Each struct is lowered to a fragment and to whether it is required, depth first, and the first
failure ends it all. The fragment of the shape comes first; the metadata is then merged into it,
always in the order deprecation, default, override.
-/

namespace ShapeSchema

/-- The schema of one struct. What is not required is allowed as the field of an object only. -/
structure Node where
  schema : Fragment
  required : Bool

/-- The fragment of a literal; two of them have none, nor have numbers that are not finite. -/
def Literal.fragment? : Literal → Option Fragment
  | .null => some .null
  | .emptyOption | .nan => none
  | .string s => some (.stringConst s)
  | .int i => some (.integerConst i)
  | .float (.finite x) => some (.numberConst (.finite x))
  | .float _ => none
  | .bool b => some (.booleanConst b)

/-- The fragment of a leaf; dates have none. -/
def Leaf.fragment? : Leaf → Option Fragment
  | .never => some .never
  | .unknown => some .empty
  | .string => some .string
  | .int => some .integer
  | .float => some .number
  | .bool => some .boolean
  | .date => none
  | .literal value => value.fragment?

/-- The node of a leaf. -/
def Leaf.lower (l : Leaf) : Traced Node :=
  match l.fragment? with
  | some fragment => pure ⟨fragment, true⟩
  | none => .fail (.unsupported l.name)

/-- The fragment of an item, which must be required. -/
def Node.item (container : Container) (node : Node) : Traced Fragment :=
  if node.required then pure node.schema else .fail (.optionalItem container)

/-- The node of a wrapper, made of the node inside. -/
def Wrapper.lower (w : Wrapper) (inner : Node) : Traced Node :=
  match w with
  | .option => if inner.required then pure ⟨inner.schema, false⟩ else .fail .nestedOption
  | .nullable => do return ⟨.nullable (← inner.item .null), true⟩
  | .array => do return ⟨.array (← inner.item .array), true⟩
  | .dict => do return ⟨.dict (← inner.item .dict), true⟩

/-- What the items of a series are items of. -/
def Series.container : Series → Container
  | .tuple => .array
  | .union => .union

/-- The fragment of a series. -/
def Series.fragment : Series → List Fragment → Fragment
  | .tuple, items => .tuple items
  | .union, variants => .anyOf variants

/-- The fragment of an object, made of the nodes of its fields. -/
def objectFragment (policy : UnknownKeys) (fields : List (String × Node)) : Fragment :=
  .record (Table.ofList (fields.map fun (name, node) => (name, .object node.schema)))
    (policy == .passthrough)
    ((fields.filter fun (_, node) => node.required).map Prod.fst)

/-- Merge the keywords of the deprecation mark. -/
def Node.withDeprecation (mark : Option Deprecation) (node : Node) : Node :=
  match mark with
  | none => node
  | some mark => { node with schema := Table.merge node.schema (Fragment.ofDeprecation mark) }

/-- Merge the default, encoded through the struct. A struct with a default is not required. -/
def Node.withDefault (s : Struct) (node : Node) : Traced Node :=
  match s.defaultValue with
  | none => pure node
  | some value =>
    match s.encode value with
    | .ok encoded => pure ⟨Table.merge node.schema (Fragment.defaultValue encoded), false⟩
    | .error e => .fail (.badDefault e.message)

/-- Merge the override. One that is no object is ignored. -/
def Node.withOverride (override : Option Json) (node : Node) : Traced Node :=
  match override with
  | none => pure node
  | some (.object patch) => pure { node with schema := Table.merge node.schema patch }
  | some value => do
    Traced.log (.overrideIgnored value)
    pure node

/-- Merge all metadata of a struct into the node of its shape. -/
def Node.withMetadata (s : Struct) (node : Node) : Traced Node := do
  let node ← (node.withDeprecation s.deprecation).withDefault s
  node.withOverride (s.annotated? overrideId)

/-- Look at a struct at this depth, if the limit allows it. -/
def visit (limit depth : Nat) (kind : Kind) : Traced Unit :=
  if limit < depth then .fail (.tooDeep limit) else .log (.lowering depth kind)

namespace Struct

mutual

/-- The node of a struct at this depth. -/
def lower (limit : Nat) : Struct → Nat → Traced Node
  | .mk shape metadata, depth => do
    visit limit depth shape.kind
    let node ← lowerShape limit shape (depth + 1)
    node.withMetadata (.mk shape metadata)
termination_by structural s => s

/-- The node of a shape, the structs inside being at this depth. -/
def lowerShape (limit : Nat) : Shape Struct → Nat → Traced Node
  | .leaf l, _ => l.lower
  | .wrapper w inner, depth => do w.lower (← inner.lower limit depth)
  | .series s items, depth => do
    return ⟨s.fragment (← lowerItems limit s.container items 0 depth), true⟩
  | .object fields policy, depth => do
    return ⟨objectFragment policy (← lowerFields limit fields depth), true⟩
termination_by structural shape => shape

/-- The fragments of the items of a series, from the given position on. -/
def lowerItems (limit : Nat) (container : Container) :
    List Struct → Nat → Nat → Traced (List Fragment)
  | [], _, _ => pure []
  | s :: rest, position, depth => do
    let item ← (do (← s.lower limit depth).item container : Traced Fragment).under
      (Nat.repr position)
    return item :: (← lowerItems limit container rest (position + 1) depth)
termination_by structural ss => ss

/-- The nodes of the fields of an object. -/
def lowerFields (limit : Nat) : List (String × Struct) → Nat → Traced (List (String × Node))
  | [], _ => pure []
  | (name, s) :: rest, depth => do
    let node ← (s.lower limit depth).under name
    return (name, node) :: (← lowerFields limit rest depth)
termination_by structural fields => fields

end

end Struct

end ShapeSchema
