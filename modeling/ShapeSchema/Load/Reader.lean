import ShapeSchema.Load.NumberLiteral
import ShapeSchema.Load.StringLiteral

/-!
# Reading a document's tree

`Source.ofBytes` reads one JSON value from the front of a text. It never fails: where the text is no
JSON, the tree says so and ends. What follows the value is not looked at.

The readers take fuel, three steps for each byte, which is as much as they can use: from one byte to
the next they go at most from a value to its items, to the first of them, and to the value there.
-/

namespace ShapeSchema

namespace Source

/-- White space between tokens. -/
def isBlank (b : UInt8) : Bool := b = 0x20 || b = 0x09 || b = 0x0A || b = 0x0D

/-- The text without the white space at its front. -/
def skipBlanks (bytes : List UInt8) : List UInt8 := bytes.dropWhile isBlank

/-- A word, of which `letters` are still due. -/
def scanWord (opening : Opening) (value : Source) : List Char → List UInt8 → Source × List UInt8
  | [], rest => (value, rest)
  | _ :: _, [] => (.broken opening .endInValue .endInValue, [])
  | c :: letters, b :: rest =>
    if Char.ofUInt8 b = c then scanWord opening value letters rest
    else (.broken opening .expectedWord .expectedWord, [])

/-- A string, from behind its opening quote. -/
def scanString (bytes : List UInt8) : Source × List UInt8 :=
  match StringScan.scan bytes with
  | .closed content rest => (.string (content.bind StringScan.decode), rest)
  | .broken reading skipping => (.broken .string reading skipping, [])

variable (reader : FloatReader)

mutual

/-- A value. -/
def read : Nat → List UInt8 → Source × List UInt8
  | 0, _ => (.broken .nothing .endInValue .endInValue, [])
  | fuel + 1, bytes =>
    match skipBlanks bytes with
    | [] => (.broken .nothing .endInValue .endInValue, [])
    | b :: rest =>
      match Char.ofUInt8 b with
      | 'n' => scanWord .null .null ['u', 'l', 'l'] rest
      | 't' => scanWord .other (.bool true) ['r', 'u', 'e'] rest
      | 'f' => scanWord .other (.bool false) ['a', 'l', 's', 'e'] rest
      | '"' => scanString rest
      | '[' =>
        let (items, rest) := readItems fuel rest
        (.list items, rest)
      | '\x7b' =>
        let (entries, rest) := readEntries fuel rest
        (.record entries, rest)
      | '-' => NumberLiteral.scan reader (b :: rest)
      | _ =>
        if NumberLiteral.isDigit b then NumberLiteral.scan reader (b :: rest)
        else (.broken .other .expectedValue .expectedValue, [])

/-- The items of a list, from behind its opening bracket. -/
def readItems : Nat → List UInt8 → Items × List UInt8
  | 0, _ => (.done .cut, [])
  | fuel + 1, bytes =>
    match skipBlanks bytes with
    | [] => (.done .cut, [])
    | b :: rest =>
      if b = 0x5D then (.done .closed, rest)
      else readItem fuel (b :: rest)

/-- An item and what follows it. -/
def readItem : Nat → List UInt8 → Items × List UInt8
  | 0, _ => (.done .cut, [])
  | fuel + 1, bytes =>
    let (value, rest) := read fuel bytes
    match skipBlanks rest with
    | [] => (.next value (.done .cut), [])
    | b :: rest =>
      if b = 0x5D then (.next value (.done .closed), rest)
      else if b = 0x2C then
        match skipBlanks rest with
        | [] => (.next value (.done .cutAfterComma), [])
        | b :: rest =>
          if b = 0x5D then (.next value (.done .danglingComma), [])
          else
            let (items, rest) := readItem fuel (b :: rest)
            (.next value items, rest)
      else (.next value (.done .stray), [])

/-- The entries of an object, from behind its opening brace. -/
def readEntries : Nat → List UInt8 → Entries × List UInt8
  | 0, _ => (.done .cut, [])
  | fuel + 1, bytes =>
    match skipBlanks bytes with
    | [] => (.done .cut, [])
    | b :: rest =>
      if b = 0x7D then (.done .closed, rest)
      else readEntry fuel (b :: rest)

/-- An entry and what follows it. -/
def readEntry : Nat → List UInt8 → Entries × List UInt8
  | 0, _ => (.done .cut, [])
  | fuel + 1, bytes =>
    match bytes with
    | 0x22 :: rest =>
      match StringScan.scan rest with
      | .broken reading skipping => (.brokenKey reading skipping, [])
      | .closed content rest =>
        let key := content.bind StringScan.decode
        match skipBlanks rest with
        | [] => (.noColon key .endInObject, [])
        | b :: rest =>
          if b ≠ 0x3A then (.noColon key .expectedColon, [])
          else
            let (value, rest) := read fuel rest
            match skipBlanks rest with
            | [] => (.next key value (.done .cut), [])
            | b :: rest =>
              if b = 0x7D then (.next key value (.done .closed), rest)
              else if b = 0x2C then
                match skipBlanks rest with
                | [] => (.next key value (.done .cutAfterComma), [])
                | b :: rest =>
                  if b = 0x7D then (.next key value (.done .danglingComma), [])
                  else
                    let (entries, rest) := readEntry fuel (b :: rest)
                    (.next key value entries, rest)
              else (.next key value (.done .stray), [])
    | _ => (.notKey, [])

end

/-- The first JSON value of a text, with its numbers read in a way of one's own. -/
def ofBytesBy (bytes : List UInt8) : Source := (read reader (3 * bytes.length + 3) bytes).1

/-- The first JSON value of a text. -/
def ofBytes (bytes : List UInt8) : Source := ofBytesBy .scaled bytes

/-- The bytes of a text. -/
def bytesOf (text : String) : List UInt8 := text.toByteArray.data.toList

end Source

end ShapeSchema
