import ShapeSchema.Load.Source

/-!
# Reading a tree

The parts that all readers of a `Source` share: how deep it may go, what to do at the end of a list
or an object, keys, scalars, and untyped values.

A tree is read in one of two ways. While the document is read from front to back, lists and
objects may be nested only so deep, and a list with too many items is no longer JSON in the eyes
of the reader. The content of a shape that comes before the shape's kind is checked as a whole
first and then read again, when the kind is known; then there is no limit left to keep, and what
does not fit is bad data rather than bad syntax.
-/

namespace ShapeSchema

/-- How a tree is read. -/
inductive Access where
  /-- For the first time, with room for so many lists and objects inside each other. -/
  | streamed (room : Nat)
  /-- Again, after it was checked. -/
  | buffered
  deriving DecidableEq

namespace Access

/-- A document may nest 127 lists and objects. -/
def document : Access := .streamed 128

/-- Enter a list or an object. -/
def enter : Access → Loaded Access
  | streamed (room + 2) => .ok (streamed (room + 1))
  | streamed _ => Loaded.fault .nestedTooDeep
  | buffered => .ok buffered

end Access

/-- The end of a list, where no more items are taken. -/
def Ending.closeList (ending : Ending) : Loaded Unit :=
  match ending.listFault? with
  | none => .ok ()
  | some fault => Loaded.fault fault

/-- A list of a fixed length, of which `taken` items have been read, must end here. -/
def Items.finish (access : Access) (taken : Nat) (items : Items) : Loaded Unit :=
  match access, items with
  | _, .done .closed => .ok ()
  | .streamed _, .done .cut => Loaded.fault .endInList
  | .streamed _, .done .danglingComma => Loaded.fault .trailingComma
  | .streamed _, _ => Loaded.fault .trailingCharacters
  | .buffered, items =>
    Loaded.fault (.wrongLength (taken + items.count)
      (Nat.repr taken ++ (if taken = 1 then " element" else " elements") ++ " in sequence"))

/-- The end of an object. A key without a colon is looked at first, by `check`, before the missing
colon is found. -/
def Entries.finish (check : String → Loaded Unit) : Entries → Loaded Unit
  | .done ending =>
    match ending.recordFault? with
    | none => .ok ()
    | some fault => (Loaded.fault fault).under .unknown
  | .brokenKey reading _ => (Loaded.fault reading).under .unknown
  | .notKey => (Loaded.fault .keyNotString).under .unknown
  | .noColon key fault => do
    check (← (Loaded.ofContent key).under .unknown)
    Loaded.fault fault
  | .next _ _ _ => .ok ()

/-- A key that is read as text. -/
def readKey (key : Except Fault String) : Loaded String := (Loaded.ofContent key).under .unknown

/-- Every key will do. -/
def anyKey (_ : String) : Loaded Unit := .ok ()

namespace Source

/-- A text. -/
def readString : Source → Loaded String
  | .string (.ok s) => .ok s
  | v => Loaded.fault (v.mismatch "a string")

/-- A truth value. -/
def readBool : Source → Loaded Bool
  | .bool b => .ok b
  | v => Loaded.fault (v.mismatch "a boolean")

/-- A signed 64-bit integer. -/
def readInt64 : Source → Loaded Int
  | .number (.ok (.int i)) =>
    if IsInt64 i then .ok i
    else Loaded.fault (.wrongValue (.number (.int i)) "i64")
  | v => Loaded.fault (v.mismatch "i64")

/-- An unsigned 64-bit integer. -/
def readSize : Source → Loaded Nat
  | .number (.ok (.int i)) =>
    if IsUInt64 i then .ok i.toNat
    else Loaded.fault (.wrongValue (.number (.int i)) "usize")
  | v => Loaded.fault (v.mismatch "usize")

/-- A number as a double. -/
def readDouble : Source → Loaded Double
  | .number (.ok n) => .ok n.toDouble
  | v => Loaded.fault (v.mismatch "f64")

/-- Nothing: null or, when read again, an empty object. -/
def readUnit (access : Access) : Source → Loaded Unit
  | .null => .ok ()
  | v =>
    match access, v with
    | .buffered, .record (.done _) => .ok ()
    | _, v => Loaded.fault (v.mismatch "unit")

end Source

mutual

/-- Any JSON value. Of a repeated key the first place and the last value remain. -/
def Source.json (access : Access) : Source → Loaded Json
  | .null => .ok .null
  | .bool b => .ok (.bool b)
  | .number n => do .ok (.number (← Loaded.ofContent n))
  | .string s => do .ok (.string (← Loaded.ofContent s))
  | .list items => do .ok (.array (← items.json (← access.enter) 0))
  | .record entries => do .ok (.object (← entries.json (← access.enter) []))
  | .broken _ reading _ => Loaded.fault reading
termination_by structural v => v

/-- The values of a list, the first of which is at `position`. -/
def Items.json (access : Access) : Items → Nat → Loaded (List Json)
  | .done ending, _ => do
    ending.closeList
    .ok []
  | .next value rest, position => do
    let v ← (value.json access).under (.index position)
    .ok (v :: (← rest.json access (position + 1)))
termination_by structural items => items

/-- The entries of an object, stored in the table one after the other. -/
def Entries.json (access : Access) : Entries → Table String Json → Loaded (Table String Json)
  | .next key value rest, table => do
    let key ← readKey key
    let v ← (value.json access).under (.key key)
    rest.json access (Table.insert key v table)
  | ending, table => do
    ending.finish anyKey
    .ok table
termination_by structural entries => entries

end

end ShapeSchema
