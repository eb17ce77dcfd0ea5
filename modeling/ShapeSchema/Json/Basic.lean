import ShapeSchema.Binary64.Basic
import ShapeSchema.Table

/-!
# JSON values

A JSON value keeps the entries of its objects in order, and tells whole numbers from floating
point ones. `Json.same` is the equality under which the order of entries does not matter.
-/

namespace ShapeSchema

/-- Whole numbers of 64 bits with a sign: from `-2 ^ 63` to `2 ^ 63 - 1`. -/
abbrev IsInt64 (i : Int) : Prop := -0x8000000000000000 ≤ i ∧ i < 0x8000000000000000

/-- Whole numbers of 64 bits without a sign: from `0` to `2 ^ 64 - 1`. -/
abbrev IsUInt64 (i : Int) : Prop := 0 ≤ i ∧ i < 0x10000000000000000

/-- A JSON number. -/
inductive Number where
  /-- A whole number. A text can only hold those of 64 bits, with or without sign. -/
  | int (value : Int)
  | float (value : Double)
  deriving DecidableEq

/-- A JSON value. -/
inductive Json where
  | null
  | bool (value : Bool)
  | number (value : Number)
  | string (value : String)
  | array (items : List Json)
  | object (entries : List (String × Json))

namespace Number

/-- Whether the number is a whole number with at most 64 bits, or a floating point one. -/
def InRange : Number → Prop
  | .int i => IsInt64 i ∨ IsUInt64 i
  | .float _ => True

instance : (n : Number) → Decidable n.InRange
  | .int i => inferInstanceAs (Decidable (IsInt64 i ∨ IsUInt64 i))
  | .float _ => isTrue trivial

/-- A whole number as a JSON number, if it has at most 64 bits. -/
def ofInt? (i : Int) : Option Number :=
  if IsInt64 i ∨ IsUInt64 i then some (.int i) else none

/-- The number as a signed 64-bit integer; floating point numbers are none, whole or not. -/
def toInt64? : Number → Option Int
  | .int i => if IsInt64 i then some i else none
  | .float _ => none

/-- The number as a double, a whole number rounded to the nearest. -/
def toDouble : Number → Double
  | .int i => .ofInt i
  | .float x => x

/-- Equality of numbers: a whole number never equals a floating point one. -/
def same : Number → Number → Bool
  | .int i, .int j => i == j
  | .float x, .float y => x.numEq y
  | _, _ => false

end Number

namespace Json

instance : Inhabited Json := ⟨.null⟩

/-- Whether the value is null. -/
def isNull : Json → Bool
  | .null => true
  | _ => false

/-- A whole number. -/
def int (i : Int) : Json := .number (.int i)

/-- A count. -/
def nat (n : Nat) : Json := .int n

/-- A floating point number. JSON has none for infinities and NaN, which become null. -/
def float : Binary64 → Json
  | .finite x => .number (.float x)
  | _ => .null

mutual

/-- Equality of values. Objects are equal if they have as many entries and each entry of the first
has its equal in the second, whatever the order. -/
def same : Json → Json → Bool
  | .null, .null => true
  | .bool a, .bool b => a == b
  | .number m, .number n => m.same n
  | .string s, .string t => s == t
  | .array xs, .array ys => sameItems xs ys
  | .object xs, .object ys => xs.length == ys.length && sameEntries xs ys
  | _, _ => false
termination_by structural v => v

/-- Equality of lists of values, position by position. -/
def sameItems : List Json → List Json → Bool
  | [], [] => true
  | x :: xs, y :: ys => same x y && sameItems xs ys
  | _, _ => false
termination_by structural xs => xs

/-- Whether each entry has its equal in the table. -/
def sameEntries : List (String × Json) → Table String Json → Bool
  | [], _ => true
  | (k, x) :: rest, table =>
    (match Table.find? k table with
      | some y => same x y
      | none => false) && sameEntries rest table
termination_by structural entries => entries

end

mutual

/-- Every object of the value has each key once, and every number is in range. -/
def WellFormed : Json → Prop
  | .null | .bool _ | .string _ => True
  | .number n => n.InRange
  | .array items => WellFormedItems items
  | .object entries => Table.Distinct entries ∧ WellFormedEntries entries
termination_by structural v => v

/-- Every item is well-formed. -/
def WellFormedItems : List Json → Prop
  | [] => True
  | v :: rest => WellFormed v ∧ WellFormedItems rest
termination_by structural items => items

/-- Every entry's value is well-formed. -/
def WellFormedEntries : List (String × Json) → Prop
  | [] => True
  | (_, v) :: rest => WellFormed v ∧ WellFormedEntries rest
termination_by structural entries => entries

end

end Json

end ShapeSchema
