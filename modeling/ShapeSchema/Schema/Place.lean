/-!
# Places in a struct

Errors say where they arose by the names and positions that lead there from the root.
-/

namespace ShapeSchema

/-- The steps from the root: field names, keys and decimal positions. -/
abbrev Place := List String

namespace Place

/-- The steps, each in quotes and brackets. A step is shown as it is, quotes included. -/
def steps : Place → String
  | [] => ""
  | step :: rest => "[\"" ++ step ++ "\"]" ++ steps rest

/-- The text of a place. -/
def text : Place → String
  | [] => "root"
  | place => steps place

end Place

end ShapeSchema
