import ShapeSchema.Load.Choice
import ShapeSchema.Load.Fields

/-!
# Loading metadata

Null in place of a deprecation or of a default means that there is none, so a default of null
cannot be loaded. Metadata may also be written as a list of its three parts, the last ones left out.
-/

namespace ShapeSchema

/-- The id that a text is. -/
def MetadataId.load (text : String) : Loaded MetadataId :=
  match ofText? text with
  | some id => .ok id
  | none => Loaded.fault (.invalidId text)

/-- The variants of a deprecation mark. -/
def Deprecation.variants : List (String × Variant Deprecation) :=
  [("flagged", .unit .flagged),
    ("withMessage", .holding fun _ v => do .ok (.withMessage (← v.readString)))]

/-- Annotations, stored in the table one after the other. -/
def Entries.annotations (access : Access) :
    Entries → Table MetadataId Json → Loaded (Table MetadataId Json)
  | .next key value rest, table => do
    let key ← readKey key
    let id ← (MetadataId.load key).under (.key key)
    let v ← (value.json access).under (.key key)
    rest.annotations access (Table.insert id v table)
  | ending, table => do
    ending.finish fun key => do
      let _ ← (MetadataId.load key).under (.key key)
      .ok ()
    .ok table

namespace Source

/-- An annotation id. -/
def readMetadataId (v : Source) : Loaded MetadataId := do MetadataId.load (← v.readString)

/-- A deprecation mark. -/
def readDeprecation (access : Access) (v : Source) : Loaded Deprecation :=
  v.readChoice access Deprecation.variants

/-- A deprecation mark, or null. Whether it is null is seen from the first letter, so what starts
like the word must go on like it. -/
def readDeprecation? (access : Access) : Source → Loaded (Option Deprecation)
  | .null => .ok none
  | .broken .null reading _ => Loaded.fault reading
  | v => do .ok (some (← v.readDeprecation access))

/-- A JSON value; null stands for none. -/
def readDefault? (access : Access) : Source → Loaded (Option Json)
  | .null => .ok none
  | v => do .ok (some (← v.json access))

/-- A table of annotations. -/
def readAnnotations (access : Access) : Source → Loaded (Table MetadataId Json)
  | .record entries => do entries.annotations (← access.enter) []
  | v => Loaded.fault (v.mismatch "a map")

end Source

/-- What has been read of metadata: which fields were there, and their values. -/
structure MetadataParts where
  deprecation : Option (Option Deprecation) := none
  default : Option (Option Json) := none
  annotations : Option (Table MetadataId Json) := none

namespace MetadataParts

/-- The metadata; what was not there is empty. -/
def metadata (parts : MetadataParts) : Metadata :=
  ⟨parts.deprecation.join, parts.default.join, parts.annotations.getD []⟩

/-- The fields of metadata. -/
def fields : List (Field MetadataParts) :=
  [⟨"deprecation", fun p => p.deprecation.isSome,
      fun a v p => do .ok { p with deprecation := some (← v.readDeprecation? a) }⟩,
    ⟨"default", fun p => p.default.isSome,
      fun a v p => do .ok { p with default := some (← v.readDefault? a) }⟩,
    ⟨"annotations", fun p => p.annotations.isSome,
      fun a v p => do .ok { p with annotations := some (← v.readAnnotations a) }⟩]

end MetadataParts

/-- Metadata as a list: the fields in order, as many as there are items. -/
def Items.readParts (access : Access) :
    List (Field MetadataParts) → Nat → Items → MetadataParts → Loaded MetadataParts
  | [], taken, items, parts => do
    items.finish access taken
    .ok parts
  | _ :: _, _, .done ending, parts => do
    ending.closeList
    .ok parts
  | field :: fields, taken, .next value rest, parts => do
    let parts ← (field.read access value parts).under (.index taken)
    rest.readParts access fields (taken + 1) parts

/-- Metadata. -/
def Source.readMetadata (access : Access) : Source → Loaded Metadata
  | .list items => do
    let parts ← items.readParts (← access.enter) MetadataParts.fields 0 {}
    .ok parts.metadata
  | .record entries => do
    let parts ← entries.readFields (← access.enter) MetadataParts.fields false {}
    .ok parts.metadata
  | v => Loaded.fault (v.mismatch "struct Metadata")

end ShapeSchema
