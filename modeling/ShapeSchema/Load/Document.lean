import ShapeSchema.Load.Config
import ShapeSchema.Load.Reader
import ShapeSchema.Load.Struct

/-!
# Loading from texts

A text is loaded from its first JSON value; what follows that value is ignored. Each of the functions
here reads numbers as `FloatReader.scaled` does, and those whose name ends in `By` as they are told.
-/

namespace ShapeSchema

/-- Read the first value of a text, given as bytes. -/
def loadBytesBy {α : Type} (reader : FloatReader) (read : Access → Source → Loaded α)
    (bytes : List UInt8) : Loaded α :=
  read .document (.ofBytesBy reader bytes)

/-- Read the first value of a text, given as bytes. -/
def loadBytes {α : Type} (read : Access → Source → Loaded α) (bytes : List UInt8) : Loaded α :=
  loadBytesBy .scaled read bytes

/-- Read the first value of a text. -/
def load {α : Type} (read : Access → Source → Loaded α) (text : String) : Loaded α :=
  loadBytes read (Source.bytesOf text)

/-- Load a JSON value. -/
def Json.loadBy (reader : FloatReader) (text : String) : Loaded Json :=
  ShapeSchema.loadBytesBy reader Source.json (Source.bytesOf text)

/-- Load a JSON value. -/
def Json.load (text : String) : Loaded Json := ShapeSchema.load Source.json text

/-- Load a struct. -/
def Struct.loadBy (reader : FloatReader) (text : String) : Loaded Struct :=
  ShapeSchema.loadBytesBy reader Source.readStruct (Source.bytesOf text)

/-- Load a struct from bytes. -/
def Struct.loadBytesBy (reader : FloatReader) (bytes : List UInt8) : Loaded Struct :=
  ShapeSchema.loadBytesBy reader Source.readStruct bytes

/-- Load a struct. -/
def Struct.load (text : String) : Loaded Struct := ShapeSchema.load Source.readStruct text

/-- Load a struct from bytes. -/
def Struct.loadBytes (bytes : List UInt8) : Loaded Struct :=
  ShapeSchema.loadBytes Source.readStruct bytes

/-- Load settings. -/
def Config.load (text : String) : Loaded Config := ShapeSchema.load Source.readConfig text

end ShapeSchema
