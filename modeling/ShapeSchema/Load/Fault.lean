import ShapeSchema.Json.Printer
import ShapeSchema.Struct.Metadata
import ShapeSchema.Text.Quoted

/-!
# Why loading fails

A fault is the cause of a failure; a `LoadError` adds the place in the document. Faults fall into
three classes: the text ends too early, the text is no JSON, or the JSON is not what was expected.
-/

namespace ShapeSchema

/-- What was found in place of something else. -/
inductive Found where
  | null
  | bool (value : Bool)
  | number (value : Number)
  | string (value : String)
  | sequence
  | map
  /-- A bare variant name. -/
  | unitVariant

/-- The cause of a failure. -/
inductive Fault where
  | endInValue
  | endInList
  | endInObject
  | endInString
  | expectedColon
  | expectedListEnd
  | expectedObjectEnd
  | expectedWord
  | expectedValue
  | invalidEscape
  | invalidNumber
  | numberOutOfRange
  | invalidCodePoint
  | controlCharacter
  | keyNotString
  | loneSurrogate
  | unfinishedSurrogate
  | trailingComma
  | trailingCharacters
  | nestedTooDeep
  | missingField (name : String)
  | duplicateField (name : String)
  | unknownField (name : String) (known : List String)
  | unknownVariant (name : String) (known : List String)
  | wrongType (found : Found) (expected : String)
  | wrongValue (found : Found) (expected : String)
  | wrongLength (length : Nat) (expected : String)
  | invalidId (text : String)

/-- The categories of faults. -/
inductive Category where
  | data
  | malformed
  | ended
  deriving DecidableEq

/-- One step into a document. -/
inductive Step where
  /-- The value under a key, or the content of a named variant. -/
  | key (name : String)
  | index (position : Nat)
  /-- Between two entries of an object, where the key is not known. -/
  | unknown
  deriving DecidableEq

/-- A fault with its place. -/
structure LoadError where
  path : List Step
  fault : Fault

/-- How a message describes what was found. -/
def Found.text : Found → String
  | .null => "null"
  | .bool b => "boolean `" ++ (if b then "true" else "false") ++ "`"
  | .number (.int i) => "integer `" ++ String.ofList (Number.intChars i) ++ "`"
  | .number (.float x) => "floating point `" ++ String.ofList (Layout.json.write x) ++ "`"
  | .string s => "string " ++ Text.quoted s
  | .sequence => "sequence"
  | .map => "map"
  | .unitVariant => "unit variant"

namespace Fault

/-- Names to choose from. -/
def oneOf : List String → String
  | [a] => "`" ++ a ++ "`"
  | [a, b] => "`" ++ a ++ "` or `" ++ b ++ "`"
  | names => "one of " ++ ", ".intercalate (names.map fun a => "`" ++ a ++ "`")

/-- The message of a fault. -/
def message : Fault → String
  | endInValue => "EOF while parsing a value"
  | endInList => "EOF while parsing a list"
  | endInObject => "EOF while parsing an object"
  | endInString => "EOF while parsing a string"
  | expectedColon => "expected `:`"
  | expectedListEnd => "expected `,` or `]`"
  | expectedObjectEnd => "expected `,` or `\x7d`"
  | expectedWord => "expected ident"
  | expectedValue => "expected value"
  | invalidEscape => "invalid escape"
  | invalidNumber => "invalid number"
  | numberOutOfRange => "number out of range"
  | invalidCodePoint => "invalid unicode code point"
  | controlCharacter => "control character (\\u0000-\\u001F) found while parsing a string"
  | keyNotString => "key must be a string"
  | loneSurrogate => "lone leading surrogate in hex escape"
  | unfinishedSurrogate => "unexpected end of hex escape"
  | trailingComma => "trailing comma"
  | trailingCharacters => "trailing characters"
  | nestedTooDeep => "recursion limit exceeded"
  | missingField name => "missing field `" ++ name ++ "`"
  | duplicateField name => "duplicate field `" ++ name ++ "`"
  | unknownField name known => "unknown field `" ++ name ++ "`, expected " ++ oneOf known
  | unknownVariant name known => "unknown variant `" ++ name ++ "`, expected " ++ oneOf known
  | wrongType found expected => "invalid type: " ++ found.text ++ ", expected " ++ expected
  | wrongValue found expected => "invalid value: " ++ found.text ++ ", expected " ++ expected
  | wrongLength length expected =>
    "invalid length " ++ Nat.repr length ++ ", expected " ++ expected
  | invalidId text => MetadataId.invalidMessage text

/-- The category of a fault. -/
def category : Fault → Category
  | endInValue | endInList | endInObject | endInString => .ended
  | missingField _ | duplicateField _ | unknownField _ _ | unknownVariant _ _ | wrongType _ _
  | wrongValue _ _ | wrongLength _ _ | invalidId _ => .data
  | _ => .malformed

end Fault

namespace LoadError

/-- A fault right here. -/
def here (fault : Fault) : LoadError := ⟨[], fault⟩

/-- The same fault, seen from one step further out. -/
def under (step : Step) (e : LoadError) : LoadError := { e with path := step :: e.path }

/-- The steps of a path: names are separated by dots, positions stand in brackets. -/
def stepsText : List Step → String
  | [] => ""
  | .index i :: rest => "[" ++ Nat.repr i ++ "]" ++ stepsText rest
  | .key name :: rest => "." ++ name ++ stepsText rest
  | .unknown :: rest => ".?" ++ stepsText rest

/-- The text of the path; a dot alone is the whole document, and no dot stands at the start of any
other path. -/
def pathText (e : LoadError) : String :=
  match e.path with
  | [] => "."
  | .key name :: rest => name ++ stepsText rest
  | .unknown :: rest => "?" ++ stepsText rest
  | path => stepsText path

/-- The message of the error. -/
def message (e : LoadError) : String :=
  "at JSON path " ++ e.pathText ++ " → " ++ e.fault.message

end LoadError

/-- The outcome of loading something. -/
abbrev Loaded (α : Type) := Except LoadError α

namespace Loaded

variable {α : Type}

/-- Fail right here. -/
def fault (f : Fault) : Loaded α := .error (.here f)

/-- A result that belongs one step further in. -/
def under (step : Step) (r : Loaded α) : Loaded α := r.mapError (.under step)

/-- A result of which errors only tell the cause. -/
def withoutPath (r : Loaded α) : Loaded α := r.mapError fun e => .here e.fault

end Loaded

end ShapeSchema
