import ShapeSchema.Table
import ShapeSchema.Binary64.Basic
import ShapeSchema.Binary64.Decimal
import ShapeSchema.Text.Printable
import ShapeSchema.Text.Quoted
import ShapeSchema.Json.Basic
import ShapeSchema.Json.Printer
import ShapeSchema.Struct.Metadata
import ShapeSchema.Struct.Basic
import ShapeSchema.Struct.Name
import ShapeSchema.Struct.Equality
import ShapeSchema.Struct.Written
import ShapeSchema.Struct.WellFormed
import ShapeSchema.Load.Fault
import ShapeSchema.Load.Source
import ShapeSchema.Load.StringLiteral
import ShapeSchema.Load.NumberLiteral
import ShapeSchema.Load.Reader
import ShapeSchema.Load.Access
import ShapeSchema.Load.Choice
import ShapeSchema.Load.Fields
import ShapeSchema.Load.Metadata
import ShapeSchema.Load.Struct
import ShapeSchema.Schema.Fragment
import ShapeSchema.Schema.Place
import ShapeSchema.Schema.Encoding
import ShapeSchema.Schema.Conversion
import ShapeSchema.Schema.Config
import ShapeSchema.Schema.Lowering
import ShapeSchema.Schema.Document
import ShapeSchema.Load.Config
import ShapeSchema.Load.Document
import ShapeSchema.Runner.Files
import ShapeSchema.Runner.Pattern
import ShapeSchema.Runner.Fixture
import ShapeSchema.Runner.Report
import ShapeSchema.Runner.CommandLine
import ShapeSchema.Main
import ShapeSchema.Proofs.Table
import ShapeSchema.Proofs.Table.Merging
import ShapeSchema.Proofs.Outcome
import ShapeSchema.Proofs.Pairs
import ShapeSchema.Proofs.Struct.Parts
import ShapeSchema.Proofs.Schema.Validity
import ShapeSchema.Proofs.Schema.PlaceTexts
import ShapeSchema.Proofs.Schema.Encoding
import ShapeSchema.Proofs.Schema.Culprits
import ShapeSchema.Proofs.Schema.Lowering
import ShapeSchema.Proofs.Schema.Meaning
import ShapeSchema.Proofs.Schema.Soundness
import ShapeSchema.Proofs.Schema.Subschemas
import ShapeSchema.Proofs.Schema.Completeness
import ShapeSchema.Proofs.Schema.Violations
import ShapeSchema.Proofs.Binary64.Decimal
import ShapeSchema.Proofs.Text.Utf8
import ShapeSchema.Proofs.Json.Values
import ShapeSchema.Proofs.Struct.Storable
import ShapeSchema.Proofs.Load.Tree
import ShapeSchema.Proofs.Load.Choice
import ShapeSchema.Proofs.Load.Metadata
import ShapeSchema.Proofs.Load.Struct
import ShapeSchema.Proofs.Load.Strings
import ShapeSchema.Proofs.Load.Numbers
import ShapeSchema.Proofs.Load.Reader
import ShapeSchema.Proofs.Load.RoundTrip
import ShapeSchema.Proofs.Schema.Annotations
import ShapeSchema.Proofs.Schema.Attachments
import ShapeSchema.Proofs.Schema.Log
import ShapeSchema.Proofs.Json.Equality
import ShapeSchema.Proofs.Json.KeyOrder
import ShapeSchema.Proofs.Struct.Equality
import ShapeSchema.Proofs.Schema.EqualEncoding
import ShapeSchema.Proofs.Schema.KeyOrder
import ShapeSchema.Proofs.Struct.Frames
import ShapeSchema.Proofs.Schema.DepthLimit
import ShapeSchema.Proofs.Schema.Locality
import ShapeSchema.Proofs.Schema.EqualSchemas
import ShapeSchema.Proofs.Schema.Dialect
import ShapeSchema.Proofs.Schema.Reencoding
import ShapeSchema.Proofs.Json.Paths
import ShapeSchema.Proofs.Schema.Preservation
import ShapeSchema.Proofs.Load.Records
import ShapeSchema.Proofs.Load.Buffering
import ShapeSchema.Proofs.Load.Layers
import ShapeSchema.Proofs.Load.Layout
import ShapeSchema.Proofs.Load.SideBySide
import ShapeSchema.Proofs.Load.LayoutFree
import ShapeSchema.Proofs.Schema.Objects
import ShapeSchema.Proofs.Schema.Policies
import ShapeSchema.Proofs.Binary64.Nearest
import ShapeSchema.Proofs.Schema.NumericLiterals
import ShapeSchema.Proofs.Load.Height
import ShapeSchema.Proofs.Load.Ids
import ShapeSchema.Proofs.Load.Whole
import ShapeSchema.Proofs.Load.Trailing
import ShapeSchema.Proofs.Load.Places
import ShapeSchema.Proofs.Load.ErrorPaths
import ShapeSchema.Proofs.Load.EarlyContent
import ShapeSchema.Proofs.Runner.Verdicts
