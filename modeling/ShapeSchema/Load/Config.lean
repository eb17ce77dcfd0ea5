import ShapeSchema.Load.Fields
import ShapeSchema.Schema.Config

/-!
# Loading settings

Settings are an object in which no other keys are allowed, or the list of their values.
-/

namespace ShapeSchema

/-- The fields of settings, of which it is known what has been read. -/
def Config.fields : List (Field (Option Config)) :=
  [⟨"maxDepth", fun s => s.isSome, fun _ v _ => do .ok (some ⟨← v.readSize⟩)⟩]

/-- Settings; what is left out has its default. -/
def Source.readConfig (access : Access) : Source → Loaded Config
  | .list items => do
    let access ← access.enter
    match items with
    | .done ending =>
      ending.closeList
      .ok {}
    | .next value rest =>
      let limit ← value.readSize.under (.index 0)
      rest.finish access 1
      .ok ⟨limit⟩
  | .record entries => do
    let config ← entries.readFields (← access.enter) Config.fields true none
    .ok (config.getD {})
  | v => Loaded.fault (v.mismatch "struct Config")

end ShapeSchema
