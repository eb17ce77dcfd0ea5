import ShapeSchema.Load.Document
import ShapeSchema.Schema.Document

/-!
# Fixtures

A fixture holds a struct and what its conversion is expected to give: a document or the message of
an error.
-/

namespace ShapeSchema.Runner

/-- What a conversion gives: a document, or the message of an error. -/
abbrev Outcome := Except String Json

/-- A struct with the outcome that is expected. -/
structure Fixture where
  struct : Struct
  expected : Outcome

/-- How an expected outcome is written. -/
def Outcome.variants : List (String × Variant Outcome) :=
  [("ok", .holding fun access v => do .ok (.ok (← v.json access))),
    ("err", .holding fun _ v => do .ok (.error (← v.readString)))]

/-- What has been read of a fixture. -/
structure FixtureParts where
  struct : Option Struct := none
  expected : Option Outcome := none

namespace FixtureParts

/-- The fields of a fixture. -/
def fields : List (Field FixtureParts) :=
  [⟨"struct", fun p => p.struct.isSome,
      fun a v p => do .ok { p with struct := some (← v.readStruct a) }⟩,
    ⟨"expect", fun p => p.expected.isSome,
      fun a v p => do .ok { p with expected := some (← v.readChoice a Outcome.variants) }⟩]

/-- The fixture, if both fields were there. -/
def fixture (p : FixtureParts) : Loaded Fixture :=
  match p.struct, p.expected with
  | some struct, some expected => .ok ⟨struct, expected⟩
  | none, _ => Loaded.fault (.missingField "struct")
  | _, none => Loaded.fault (.missingField "expect")

end FixtureParts

/-- A fixture as the list of its two parts. -/
def readPair (access : Access) : Items → Loaded Fixture
  | .done ending => do
    ending.closeList
    Loaded.fault (.wrongLength 0 "struct Fixture with 2 elements")
  | .next first rest => do
    let struct ← (first.readStruct access).under (.index 0)
    match rest with
    | .done ending =>
      ending.closeList
      Loaded.fault (.wrongLength 1 "struct Fixture with 2 elements")
    | .next second rest =>
      let expected ← (second.readChoice access Outcome.variants).under (.index 1)
      rest.finish access 2
      .ok ⟨struct, expected⟩

/-- A fixture, in which no other keys are allowed. -/
def readFixture (access : Access) : Source → Loaded Fixture
  | .list items => do readPair (← access.enter) items
  | .record entries => do
    (← entries.readFields (← access.enter) FixtureParts.fields true {}).fixture
  | v => Loaded.fault (v.mismatch "struct Fixture")

namespace Outcome

/-- Whether two outcomes are the same: documents compare without the order of keys. -/
def same : Outcome → Outcome → Bool
  | .ok v, .ok w => v.same w
  | .error s, .error t => s == t
  | _, _ => false

/-- How a report shows an outcome. -/
def text : Outcome → String
  | .ok v => v.compact
  | .error s => "error " ++ Text.quoted s

end Outcome

end ShapeSchema.Runner
