import ShapeSchema.Json.Printer
import ShapeSchema.Struct.Basic
import ShapeSchema.Text.Quoted

/-!
# The names of structs

The label by which messages speak of a struct. It shows the shape down to the leaves, but of an
object only that it is one, and no metadata.
-/

namespace ShapeSchema

/-- The text of a truth value. -/
def boolText (b : Bool) : String := if b then "true" else "false"

/-- How a label shows a literal. -/
def Literal.display : Literal → String
  | .null => "null"
  | .emptyOption => "EmptyOption"
  | .nan => "NaN"
  | .string s => Text.quoted s
  | .int i => String.ofList (Number.intChars i)
  | .float x => x.plain
  | .bool b => boolText b

/-- The label of a leaf. -/
def Leaf.name : Leaf → String
  | .never => "Never"
  | .unknown => "Unknown"
  | .string => "String"
  | .int => "Int"
  | .float => "Float"
  | .bool => "Bool"
  | .date => "Date"
  | .literal value => "Literal(" ++ value.display ++ ")"

/-- The word before the parentheses in the label of a wrapper. -/
def Wrapper.label : Wrapper → String
  | .option => "Option"
  | .nullable => "Null"
  | .array => "Array"
  | .dict => "Dict"

/-- The word before the parentheses in the label of a series. -/
def Series.label : Series → String
  | .tuple => "Tuple"
  | .union => "Union"

/-- What stands between the items in the label of a series. -/
def Series.separator : Series → String
  | .tuple => ", "
  | .union => " | "

namespace Struct

mutual

/-- The label of a struct. -/
def name : Struct → String
  | .mk (.leaf l) _ => l.name
  | .mk (.wrapper w inner) _ => w.label ++ "(" ++ inner.name ++ ")"
  | .mk (.series s items) _ => s.label ++ "(" ++ s.separator.intercalate (names items) ++ ")"
  | .mk (.object _ _) _ => "Object"
termination_by structural s => s

/-- The labels of several structs. -/
def names : List Struct → List String
  | [] => []
  | s :: rest => s.name :: names rest
termination_by structural ss => ss

end

end Struct

end ShapeSchema
