import ShapeSchema.Load.Metadata
import ShapeSchema.Struct.Written

/-!
# Loading structs

A struct is an object with its shape and its metadata, or the list of the two; a shape is an object
with its kind and its content, in either order, or the list of the two. How the content is read
depends on the kind. Content that comes before the kind is first checked as a JSON value; what is
then wrong with it is reported at the shape, because its own place is no longer known.
-/

namespace ShapeSchema

/-- What the content of a shape is. -/
inductive Content where
  /-- Nothing. -/
  | nothing (leaf : Leaf)
  | literal
  | struct (wrapper : Wrapper)
  | structs (series : Series)
  | fields

/-- The content that goes with a kind. -/
def Kind.content : Kind → Content
  | .never => .nothing .never
  | .unknown => .nothing .unknown
  | .string => .nothing .string
  | .int => .nothing .int
  | .float => .nothing .float
  | .bool => .nothing .bool
  | .date => .nothing .date
  | .literal => .literal
  | .option => .struct .option
  | .nullable => .struct .nullable
  | .array => .struct .array
  | .tuple => .structs .tuple
  | .object => .fields
  | .union => .structs .union
  | .dict => .struct .dict

/-- The variants of a literal. -/
def Literal.variants : List (String × Variant Literal) :=
  [("null", .unit .null),
    ("emptyOption", .unit .emptyOption),
    ("nan", .unit .nan),
    ("string", .holding fun _ v => do .ok (.string (← v.readString))),
    ("int", .holding fun _ v => do .ok (.int (← v.readInt64))),
    ("float", .holding fun _ v => do .ok (.float (.finite (← v.readDouble)))),
    ("bool", .holding fun _ v => do .ok (.bool (← v.readBool)))]

/-- The variants of a policy. -/
def UnknownKeys.variants : List (String × Variant UnknownKeys) :=
  [UnknownKeys.strict, .strip, .passthrough].map fun policy => (policy.text, .unit policy)

/-- The kinds as variants. -/
def Kind.variants : List (String × Variant Kind) := all.map fun kind => (kind.text, .unit kind)

namespace Source

/-- A literal. -/
def readLiteral (access : Access) (v : Source) : Loaded Literal :=
  v.readChoice access Literal.variants

/-- A policy. -/
def readUnknownKeys (access : Access) (v : Source) : Loaded UnknownKeys :=
  v.readChoice access UnknownKeys.variants

/-- A kind. -/
def readKind (access : Access) (v : Source) : Loaded Kind := v.readChoice access Kind.variants

/-- A kind that stands before the content in a list. -/
def readKindItem (access : Access) (v : Source) : Loaded Kind := do
  (← v.readVariant access Kind.variants).bare

/-- The value does not fit, whatever it is; a list or an object is entered before that is said. -/
def refuse {α : Type} (access : Access) (expected : String) : Source → Loaded α
  | .list items => do
    let _ ← access.enter
    Loaded.fault ((Source.list items).mismatch expected)
  | .record entries => do
    let _ ← access.enter
    Loaded.fault ((Source.record entries).mismatch expected)
  | v => Loaded.fault (v.mismatch expected)

/-- The content of a shape without content. -/
def readNothing (access : Access) (leaf : Leaf) : Source → Loaded (Shape Struct)
  | .null => .ok (.leaf leaf)
  | v => v.refuse access ("unit variant Shape::" ++ leaf.kind.text.capitalize)

end Source

/-- After both parts of a shape, neither may stand again. -/
def noSecond (key : String) : Loaded Unit := onlyOnce (key = "kind" || key = "of") key

/-- The rest of a shape after both of its parts. -/
def Entries.noMore : Entries → Loaded Unit
  | .next key value rest => do
    let key ← readKey key
    noSecond key
    value.skip.under (.key key)
    rest.noMore
  | ending => ending.finish noSecond

/-- The kind of a shape whose content has been passed, and the entries after it. -/
def Entries.laterKind (access : Access) : Entries → Loaded (Kind × Entries)
  | .next key value rest => do
    let key ← readKey key
    onlyOnce (key = "of") key
    if key = "kind" then
      let kind ← (value.readKind access).under (.key key)
      .ok (kind, rest)
    else
      value.skip.under (.key key)
      rest.laterKind access
  | ending => do
    ending.finish fun key => onlyOnce (key = "of") key
    Loaded.fault (.missingField "kind")

mutual

/-- A struct. -/
def Source.readStruct (access : Access) : Source → Loaded Struct
  | .list items => do items.readStruct (← access.enter)
  | .record entries => do entries.readStruct (← access.enter) none none
  | v => Loaded.fault (v.mismatch "struct Struct")
termination_by structural v => v

/-- A struct as a list of its shape and, if it is there, its metadata. -/
def Items.readStruct (access : Access) : Items → Loaded Struct
  | .done ending => do
    ending.closeList
    Loaded.fault (.wrongLength 0 "struct Struct with 2 elements")
  | .next first rest => do
    let shape ← (first.readShape access).under (.index 0)
    match rest with
    | .done ending =>
      ending.closeList
      .ok (.mk shape {})
    | .next second rest =>
      let metadata ← (second.readMetadata access).under (.index 1)
      rest.finish access 2
      .ok (.mk shape metadata)
termination_by structural items => items

/-- A struct from its entries, after these parts of it. -/
def Entries.readStruct (access : Access) :
    Entries → Option (Shape Struct) → Option Metadata → Loaded Struct
  | .next key value rest, shape, metadata => do
    let key ← readKey key
    if key = "shape" then
      onlyOnce shape.isSome key
      let s ← (value.readShape access).under (.key key)
      rest.readStruct access (some s) metadata
    else if key = "metadata" then
      onlyOnce metadata.isSome key
      let m ← (value.readMetadata access).under (.key key)
      rest.readStruct access shape (some m)
    else
      value.skip.under (.key key)
      rest.readStruct access shape metadata
  | ending, shape, metadata => do
    ending.finish fun key => onlyOnce
      ((key = "shape" && shape.isSome) || (key = "metadata" && metadata.isSome)) key
    match shape with
    | some s => .ok (.mk s (metadata.getD {}))
    | none => Loaded.fault (.missingField "shape")
termination_by structural entries => entries

/-- A shape. -/
def Source.readShape (access : Access) : Source → Loaded (Shape Struct)
  | .list items => do items.readShape (← access.enter)
  | .record entries => do entries.readShape (← access.enter)
  | v => Loaded.fault (v.mismatch "adjacently tagged enum Shape")
termination_by structural v => v

/-- A shape as a list of its kind and its content. -/
def Items.readShape (access : Access) : Items → Loaded (Shape Struct)
  | .done ending => do
    ending.closeList
    Loaded.fault (.wrongLength 0 "adjacently tagged enum Shape")
  | .next first rest => do
    let kind ← (first.readKindItem access).under (.index 0)
    match rest with
    | .done ending =>
      ending.closeList
      Loaded.fault (.wrongLength 1 "adjacently tagged enum Shape")
    | .next second rest =>
      let shape ← (second.readContent access kind.content).under (.index 1)
      rest.finish access 2
      .ok shape
termination_by structural items => items

/-- A shape from its entries, none of which has been its kind or its content. -/
def Entries.readShape (access : Access) : Entries → Loaded (Shape Struct)
  | .next key value rest => do
    let key ← readKey key
    if key = "kind" then
      let kind ← (value.readKind access).under (.key key)
      rest.readContent access kind.content
    else if key = "of" then
      let _ ← (value.json access).under (.key key)
      let (kind, rest) ← rest.laterKind access
      let shape ← (value.readContent .buffered kind.content).withoutPath
      rest.noMore
      .ok shape
    else
      value.skip.under (.key key)
      rest.readShape access
  | ending => do
    ending.finish anyKey
    Loaded.fault (.missingField "kind")
termination_by structural entries => entries

/-- The rest of a shape after its kind. -/
def Entries.readContent (access : Access) (content : Content) : Entries → Loaded (Shape Struct)
  | .next key value rest => do
    let key ← readKey key
    onlyOnce (key = "kind") key
    if key = "of" then
      let shape ← (value.readContent access content).under (.key key)
      rest.noMore
      .ok shape
    else
      value.skip.under (.key key)
      rest.readContent access content
  | ending => do
    ending.finish fun key => onlyOnce (key = "kind") key
    match content with
    | .nothing leaf => .ok (.leaf leaf)
    | _ => Loaded.fault (.missingField "of")
termination_by structural entries => entries

/-- The content of a shape. -/
def Source.readContent (access : Access) : Content → Source → Loaded (Shape Struct)
  | .nothing leaf, v => v.readNothing access leaf
  | .literal, v => do .ok (.leaf (.literal (← v.readLiteral access)))
  | .struct w, .list items => do .ok (.wrapper w (← items.readStruct (← access.enter)))
  | .struct w, .record entries => do
    .ok (.wrapper w (← entries.readStruct (← access.enter) none none))
  | .struct _, v => Loaded.fault (v.mismatch "struct Struct")
  | .structs s, .list items => do .ok (.series s (← items.readStructs (← access.enter) 0))
  | .structs _, v => Loaded.fault (v.mismatch "a sequence")
  | .fields, .record entries => do entries.readObject (← access.enter) none none
  | .fields, v => v.refuse access "struct variant Shape::Object"
termination_by structural _ v => v

/-- Several structs, the first of which is at `position`. -/
def Items.readStructs (access : Access) : Items → Nat → Loaded (List Struct)
  | .done ending, _ => do
    ending.closeList
    .ok []
  | .next value rest, position => do
    let s ← (value.readStruct access).under (.index position)
    .ok (s :: (← rest.readStructs access (position + 1)))
termination_by structural items => items

/-- The content of an object, after these parts of it. -/
def Entries.readObject (access : Access) :
    Entries → Option (Table String Struct) → Option UnknownKeys → Loaded (Shape Struct)
  | .next key value rest, fields, policy => do
    let key ← readKey key
    if key = "fields" then
      onlyOnce fields.isSome key
      let table ← (match value with
        | .record entries => do entries.readNamed (← access.enter) []
        | v => Loaded.fault (v.mismatch "a map")).under (.key key)
      rest.readObject access (some table) policy
    else if key = "unknownKeys" then
      onlyOnce policy.isSome key
      let u ← (value.readUnknownKeys access).under (.key key)
      rest.readObject access fields (some u)
    else
      value.skip.under (.key key)
      rest.readObject access fields policy
  | ending, fields, policy => do
    ending.finish fun key => onlyOnce
      ((key = "fields" && fields.isSome) || (key = "unknownKeys" && policy.isSome)) key
    match fields with
    | some fields => .ok (.object fields (policy.getD .strip))
    | none => Loaded.fault (.missingField "fields")
termination_by structural entries => entries

/-- Named structs, stored in the table one after the other. -/
def Entries.readNamed (access : Access) :
    Entries → Table String Struct → Loaded (Table String Struct)
  | .next key value rest, table => do
    let key ← readKey key
    let s ← (value.readStruct access).under (.key key)
    rest.readNamed access (Table.insert key s table)
  | ending, table => do
    ending.finish anyKey
    .ok table
termination_by structural entries => entries

end

end ShapeSchema
