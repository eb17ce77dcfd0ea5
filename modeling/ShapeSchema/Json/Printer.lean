import ShapeSchema.Binary64.Decimal
import ShapeSchema.Json.Basic

/-!
# The compact text of JSON values

`Json.compact` writes a value without any white space, entries in their order. Strings escape only
what has to be escaped; floating point numbers have the fewest digits that read back, and always a
point or an exponent, so that they are never taken for whole numbers.
-/

namespace ShapeSchema

/-- Numbers are written positionally from `0.00001` up to sixteen digits before the point, and keep
a `.0`; a tie goes to the even digit. -/
def Layout.json : Layout := ⟨.even, some (-5, 16), true⟩

/-- The text of a whole number. -/
def Number.intChars : Int → List Char
  | .ofNat n => Nat.toDigits 10 n
  | .negSucc n => '-' :: Nat.toDigits 10 (n + 1)

/-- The text of a number. -/
def Number.chars : Number → List Char
  | .int i => intChars i
  | .float x => Layout.json.write x

namespace Json

/-- Four hexadecimal digits of a number below `2 ^ 16`. -/
def hex4 (n : Nat) : List Char :=
  [n / 4096 % 16, n / 256 % 16, n / 16 % 16, n % 16].map Nat.digitChar

/-- One character inside a string: quote, backslash and control characters are escaped. -/
def escape (c : Char) : List Char :=
  if c = '"' then ['\\', '"']
  else if c = '\\' then ['\\', '\\']
  else if c.toNat < 0x20 then
    match c.toNat with
    | 0x08 => ['\\', 'b']
    | 0x09 => ['\\', 't']
    | 0x0A => ['\\', 'n']
    | 0x0C => ['\\', 'f']
    | 0x0D => ['\\', 'r']
    | n => '\\' :: 'u' :: hex4 n
  else [c]

/-- A string between its quotes. -/
def stringChars (s : String) : List Char :=
  '"' :: (s.toList.flatMap escape ++ ['"'])

mutual

/-- The text of a value as characters, and behind it `behind`. What follows is handed down, so that
no text is copied again for each value around it. -/
def charsBefore (behind : List Char) : Json → List Char
  | .null => 'n' :: 'u' :: 'l' :: 'l' :: behind
  | .bool true => 't' :: 'r' :: 'u' :: 'e' :: behind
  | .bool false => 'f' :: 'a' :: 'l' :: 's' :: 'e' :: behind
  | .number n => n.chars ++ behind
  | .string s => stringChars s ++ behind
  | .array items => '[' :: itemChars behind items
  | .object entries => '\x7b' :: entryChars behind entries
termination_by structural v => v

/-- The items of an array, its end, and `behind`. -/
def itemChars (behind : List Char) : List Json → List Char
  | [] => ']' :: behind
  | v :: rest => v.charsBefore (moreItemChars behind rest)
termination_by structural items => items

/-- What follows an item. -/
def moreItemChars (behind : List Char) : List Json → List Char
  | [] => ']' :: behind
  | v :: rest => ',' :: v.charsBefore (moreItemChars behind rest)
termination_by structural items => items

/-- The entries of an object, its end, and `behind`. -/
def entryChars (behind : List Char) : List (String × Json) → List Char
  | [] => '\x7d' :: behind
  | (k, v) :: rest => stringChars k ++ ':' :: v.charsBefore (moreEntryChars behind rest)
termination_by structural entries => entries

/-- What follows an entry. -/
def moreEntryChars (behind : List Char) : List (String × Json) → List Char
  | [] => '\x7d' :: behind
  | (k, v) :: rest => ',' :: (stringChars k ++ ':' :: v.charsBefore (moreEntryChars behind rest))
termination_by structural entries => entries

end

/-- The text of a value. -/
def compact (v : Json) : String := String.ofList (v.charsBefore [])

end Json

end ShapeSchema
