import ShapeSchema.Load.Fault

/-!
# Documents as they are written

A `Source` is one JSON value as it stands in a text, up to the place where the text stops being
JSON, if there is one. It keeps repeated keys, and it keeps as part of the tree what is wrong: a
list ends in its closing bracket or in one of four other ways, a string holds its content or the
reason why it has none. What to do about it is left to the reader of the tree, because two ways of
reading differ: a value that is read must have valid strings and numbers in range, a value that is
skipped need not, and some breaks have another name when they are met while skipping.
-/

namespace ShapeSchema

/-- What stands where a value breaks off. -/
inductive Opening where
  /-- Nothing: the text ends before the value. -/
  | nothing
  /-- A string that does not end, or that breaks. -/
  | string
  /-- The word for null, not to its end. -/
  | null
  /-- Anything else. -/
  | other
  deriving DecidableEq

/-- How a list or an object ends. -/
inductive Ending where
  /-- By its closing bracket. -/
  | closed
  /-- The text ends where a comma or the bracket is due. -/
  | cut
  /-- Neither a comma nor the bracket follows. -/
  | stray
  /-- The bracket follows a comma. -/
  | danglingComma
  /-- The text ends after a comma. -/
  | cutAfterComma
  deriving DecidableEq

mutual

/-- A value in a text. -/
inductive Source where
  | null
  | bool (value : Bool)
  /-- A number, or why it has no value. -/
  | number (value : Except Fault Number)
  /-- A string, or why it has no content. -/
  | string (content : Except Fault String)
  | list (items : Items)
  | record (entries : Entries)
  /-- The text is no JSON from here on; the fault when reading and the fault when skipping. -/
  | broken (opening : Opening) (reading skipping : Fault)

/-- The items of a list with the list's end. -/
inductive Items where
  | done (ending : Ending)
  | next (value : Source) (rest : Items)

/-- The entries of an object with the object's end. -/
inductive Entries where
  | done (ending : Ending)
  /-- A key that breaks; the fault when reading and the fault when skipping. -/
  | brokenKey (reading skipping : Fault)
  /-- Something else than a string where a key is due. -/
  | notKey
  /-- A key without its colon. -/
  | noColon (key : Except Fault String) (fault : Fault)
  | next (key : Except Fault String) (value : Source) (rest : Entries)

end

namespace Ending

/-- The fault of a list that is read and ends in this way. -/
def listFault? : Ending → Option Fault
  | closed => none
  | cut => some .endInList
  | stray => some .expectedListEnd
  | danglingComma => some .trailingComma
  | cutAfterComma => some .endInValue

/-- The fault of an object that is read and ends in this way. -/
def recordFault? : Ending → Option Fault
  | closed => none
  | cut => some .endInObject
  | stray => some .expectedObjectEnd
  | danglingComma => some .trailingComma
  | cutAfterComma => some .endInValue

/-- The fault of a list that is skipped and ends in this way. -/
def skippedListFault? : Ending → Option Fault
  | danglingComma => some .expectedValue
  | ending => ending.listFault?

/-- The fault of an object that is skipped and ends in this way. -/
def skippedRecordFault? : Ending → Option Fault
  | danglingComma => some .keyNotString
  | cutAfterComma => some .endInObject
  | ending => ending.recordFault?

end Ending

mutual

/-- The first fault when the value is skipped. Neither the content of strings nor the range of
numbers matters, nor how deeply the value is nested. -/
def Source.skipFault? : Source → Option Fault
  | .null | .bool _ | .number _ | .string _ => none
  | .list items => items.skipFault?
  | .record entries => entries.skipFault?
  | .broken _ _ skipping => some skipping
termination_by structural v => v

/-- The first fault when the items are skipped. -/
def Items.skipFault? : Items → Option Fault
  | .done ending => ending.skippedListFault?
  | .next value rest => value.skipFault? <|> rest.skipFault?
termination_by structural items => items

/-- The first fault when the entries are skipped. -/
def Entries.skipFault? : Entries → Option Fault
  | .done ending => ending.skippedRecordFault?
  | .brokenKey _ skipping => some skipping
  | .notKey => some .keyNotString
  | .noColon _ fault => some fault
  | .next _ value rest => value.skipFault? <|> rest.skipFault?
termination_by structural entries => entries

end

/-- Go past a value that nothing is read from. -/
def Source.skip (v : Source) : Loaded Unit :=
  match v.skipFault? with
  | none => .ok ()
  | some fault => Loaded.fault fault

/-- The fault of a value that is not what was expected. Scalars are read first, so a fault in them
comes before. -/
def Source.mismatch (expected : String) : Source → Fault
  | .null => .wrongType .null expected
  | .bool b => .wrongType (.bool b) expected
  | .number (.ok n) => .wrongType (.number n) expected
  | .number (.error fault) => fault
  | .string (.ok s) => .wrongType (.string s) expected
  | .string (.error fault) => fault
  | .list _ => .wrongType .sequence expected
  | .record _ => .wrongType .map expected
  | .broken _ reading _ => reading

/-- A key or a string's content as the result of reading it. -/
def Loaded.ofContent {α : Type} : Except Fault α → Loaded α
  | .ok a => .ok a
  | .error fault => Loaded.fault fault

/-- How many items there are. -/
def Items.count : Items → Nat
  | .done _ => 0
  | .next _ rest => rest.count + 1

end ShapeSchema
