import ShapeSchema.Schema.Config
import ShapeSchema.Schema.Lowering

/-!
# Schema documents

The front door: a struct is converted to a document, or the error is told. `Struct.override` and
`Struct.describe` attach what the schema of a struct is to say besides.
-/

namespace ShapeSchema

namespace Struct

/-- The node of a struct as the root of a schema. -/
def node (config : Config) (s : Struct) : Traced Node := s.lower config.maxDepth 0

/-- The document of a node, which must be required. -/
def documentOf (node : Node) : Traced Json :=
  if node.required then pure (.object (Fragment.document node.schema)) else .fail .optionalRoot

/-- Log the failure, if there is one, as the last event. -/
def logFailure (conversion : Traced Json) : Traced Json :=
  match conversion.result with
  | .ok _ => conversion
  | .error e => { conversion with events := conversion.events ++ [.failed e] }

/-- The conversion of a struct with its log. -/
def convert (config : Config) (s : Struct) : Traced Json :=
  logFailure (do
    Traced.log (.converting s.kind)
    documentOf (← s.node config))

/-- The schema document of a struct. -/
def documentWith (config : Config) (s : Struct) : Except ConversionError Json :=
  (s.convert config).result

/-- The schema document of a struct with default settings, or the message of the error. -/
def document (s : Struct) : Except String Json :=
  (s.documentWith {}).mapError ConversionError.message

/-- Merge a patch into the override of the struct's schema; one that is no object is replaced. -/
def override (patch : Fragment) (s : Struct) : Struct :=
  let merged := match s.annotated? overrideId with
    | some (.object present) => Table.merge present patch
    | _ => patch
  s.annotate overrideId (.object merged)

/-- Say in the schema what the struct is. -/
def describe (text : String) (s : Struct) : Struct := s.override [("description", .string text)]

end Struct

end ShapeSchema
