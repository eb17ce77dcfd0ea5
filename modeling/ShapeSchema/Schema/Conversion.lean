import ShapeSchema.Json.Printer
import ShapeSchema.Schema.Place
import ShapeSchema.Struct.Basic

/-!
# The course of a conversion

A conversion tells what it does in a log of events and ends in a result or in an error. `Traced`
keeps both: the log of a computation that fails is the log up to the failure.
-/

namespace ShapeSchema

/-- Containers whose items may not be optional, as messages call them. -/
inductive Container where
  | null
  | array
  | dict
  | union
  deriving DecidableEq

/-- The word for a container. -/
def Container.text : Container → String
  | .null => "Null"
  | .array => "Array"
  | .dict => "Dict"
  | .union => "Union"

/-- Why a struct has no schema. -/
inductive Obstacle where
  /-- There is no schema for the struct of this name. -/
  | unsupported (name : String)
  | optionalItem (container : Container)
  | nestedOption
  | optionalRoot
  /-- The default does not fit the struct; the message tells why. -/
  | badDefault (message : String)
  | tooDeep (limit : Nat)

/-- Why and where a struct has no schema. -/
structure ConversionError where
  place : Place
  obstacle : Obstacle

/-- The text of an obstacle. -/
def Obstacle.text : Obstacle → String
  | unsupported name => "The " ++ name ++ " struct is not supported"
  | optionalItem container => "Optional struct is not supported as " ++ container.text ++ " item"
  | nestedOption => "Optional struct is not supported inside the Option struct"
  | optionalRoot => "Optional struct is not supported at root"
  | badDefault message => "Couldn't destruct default value. Error: " ++ message
  | tooDeep limit => "Struct nesting exceeds the maximum depth of " ++ Nat.repr limit

namespace ConversionError

/-- An error right here. -/
def here (obstacle : Obstacle) : ConversionError := ⟨[], obstacle⟩

/-- The same error, seen from one step further out. -/
def under (step : String) (e : ConversionError) : ConversionError :=
  { e with place := step :: e.place }

/-- The message of the error. -/
def message (e : ConversionError) : String :=
  "Failed converting at " ++ e.place.text ++ ". Reason: " ++ e.obstacle.text ++ "."

end ConversionError

/-- The annotation under which a struct keeps the override of its schema. -/
def overrideId : MetadataId := ⟨"json-struct-schema", "raw"⟩

/-- What happens during a conversion. -/
inductive Event where
  /-- The conversion of a struct of this kind begins. -/
  | converting (kind : Kind)
  /-- A struct at this depth is looked at. -/
  | lowering (depth : Nat) (kind : Kind)
  /-- The override of a struct is no object. -/
  | overrideIgnored (value : Json)
  | failed (error : ConversionError)

/-- How much an event matters. -/
inductive Level where
  | trace
  | debug
  | info
  | warn
  deriving DecidableEq

/-- The word for a level. -/
def Level.text : Level → String
  | .trace => "TRACE"
  | .debug => "DEBUG"
  | .info => "INFO"
  | .warn => "WARN"

/-- A datum of an event: some are shown in quotes, the others bare. -/
structure Datum where
  text : String
  quoted : Bool := false

namespace Event

/-- How much the event matters. -/
def level : Event → Level
  | converting _ => .debug
  | lowering _ _ => .trace
  | overrideIgnored _ => .warn
  | failed _ => .debug

/-- What the event says. -/
def message : Event → String
  | converting _ => "converting struct to JSON schema"
  | lowering _ _ => "lowering struct"
  | overrideIgnored _ => "ignoring non-object raw schema override"
  | failed _ => "conversion failed"

/-- The data of the event. -/
def data : Event → List (String × Datum)
  | converting kind => [("kind", ⟨kind.text, true⟩)]
  | lowering depth kind => [("depth", ⟨Nat.repr depth, false⟩), ("kind", ⟨kind.text, true⟩)]
  | overrideIgnored value =>
    [("id", ⟨overrideId.text, false⟩), ("value", ⟨value.compact, false⟩)]
  | failed error =>
    [("path", ⟨error.place.text, false⟩), ("code", ⟨error.obstacle.text, false⟩)]

end Event

/-- A computation that logs events and may fail. -/
structure Traced (α : Type) where
  events : List Event
  result : Except ConversionError α

namespace Traced

variable {α β : Type}

/-- A result without events. -/
def pure (a : α) : Traced α := ⟨[], .ok a⟩

/-- Go on with the result, if there is one. -/
def bind (x : Traced α) (f : α → Traced β) : Traced β :=
  match x.result with
  | .ok a => ⟨x.events ++ (f a).events, (f a).result⟩
  | .error e => ⟨x.events, .error e⟩

instance : Monad Traced where
  pure := pure
  bind := bind

/-- Log an event. -/
def log (event : Event) : Traced Unit := ⟨[event], .ok ()⟩

/-- Fail right here. -/
def fail (obstacle : Obstacle) : Traced α := ⟨[], .error (.here obstacle)⟩

/-- A computation that belongs one step further in. -/
def under (step : String) (x : Traced α) : Traced α := ⟨x.events, x.result.mapError (.under step)⟩

end Traced

end ShapeSchema
