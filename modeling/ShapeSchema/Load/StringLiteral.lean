import ShapeSchema.Load.Source

/-!
# Strings in a text

A string is scanned byte by byte from behind its opening quote. Whether it ends at all does not
depend on what its escapes stand for: a string with half of a surrogate pair, or with bytes that are
not UTF-8, has an end but no content.
-/

namespace ShapeSchema

/-- The outcome of scanning a string. -/
inductive StringScan where
  /-- Its bytes, escapes replaced, or why there are none; and what follows the closing quote. -/
  | closed (content : Except Fault (List UInt8)) (rest : List UInt8)
  /-- The string breaks; the fault when reading and the fault when skipping. -/
  | broken (reading skipping : Fault)

namespace StringScan

/-- The value of a hexadecimal digit. -/
def hexDigit? (b : UInt8) : Option Nat :=
  let n := b.toNat
  if 0x30 ≤ n ∧ n ≤ 0x39 then some (n - 0x30)
  else if 0x41 ≤ n ∧ n ≤ 0x46 then some (n - 0x41 + 10)
  else if 0x61 ≤ n ∧ n ≤ 0x66 then some (n - 0x61 + 10)
  else none

/-- The value of four hexadecimal digits. -/
def hex4? (a b c d : UInt8) : Option Nat := do
  let a ← hexDigit? a
  let b ← hexDigit? b
  let c ← hexDigit? c
  let d ← hexDigit? d
  some (((a * 16 + b) * 16 + c) * 16 + d)

/-- The byte for which an escape of one character stands. -/
def shortEscape? (b : UInt8) : Option UInt8 :=
  match Char.ofUInt8 b with
  | '"' => some 0x22
  | '\\' => some 0x5C
  | '/' => some 0x2F
  | 'b' => some 0x08
  | 'f' => some 0x0C
  | 'n' => some 0x0A
  | 'r' => some 0x0D
  | 't' => some 0x09
  | _ => none

/-- The first half of a surrogate pair. -/
def isLeading (n : Nat) : Bool := 0xD800 ≤ n && n < 0xDC00

/-- The second half of a surrogate pair. -/
def isTrailing (n : Nat) : Bool := 0xDC00 ≤ n && n < 0xE000

/-- The bytes of the character with this code point. -/
def encodePoint (n : Nat) : List UInt8 := String.utf8EncodeChar (Char.ofNat n)

/-- The code point of a surrogate pair. -/
def pairPoint (leading trailing : Nat) : Nat :=
  0x10000 + (leading - 0xD800) * 0x400 + (trailing - 0xDC00)

/-- Put bytes in front of the content. -/
def push (bytes : List UInt8) : StringScan → StringScan
  | closed content rest => closed (content.map (bytes ++ ·)) rest
  | broken reading skipping => broken reading skipping

/-- A fault in front of everything that follows; a string that is only skipped passes it. -/
def fail (fault : Fault) : StringScan → StringScan
  | closed _ rest => closed (.error fault) rest
  | broken _ skipping => broken fault skipping

/-- The text ends within the string. -/
def cut : StringScan := broken .endInString .endInString

/-- An escape that stands for nothing. -/
def badEscape : StringScan := broken .invalidEscape .invalidEscape

/-- Scan a string up to its closing quote. An escape of a surrogate counts only together with its
other half directly behind it. -/
def scan : List UInt8 → StringScan
  | [] => cut
  | b :: rest =>
    if b = 0x22 then closed (.ok []) rest
    else if b = 0x5C then
      match rest with
      | [] => cut
      | e :: rest =>
        match shortEscape? e with
        | some byte => (scan rest).push [byte]
        | none =>
          if e ≠ 0x75 then badEscape
          else match rest with
            | h1 :: h2 :: h3 :: h4 :: rest =>
              match hex4? h1 h2 h3 h4 with
              | none => badEscape
              | some n =>
                if isTrailing n then (scan rest).fail .loneSurrogate
                else if isLeading n then
                  match rest with
                  | [] | [0x5C] => cut
                  | 0x5C :: 0x75 :: g1 :: g2 :: g3 :: g4 :: after =>
                    match hex4? g1 g2 g3 g4 with
                    | none => badEscape
                    | some m =>
                      if isTrailing m then (scan after).push (encodePoint (pairPoint n m))
                      else
                        (scan (0x5C :: 0x75 :: g1 :: g2 :: g3 :: g4 :: after)).fail .loneSurrogate
                  | 0x5C :: 0x75 :: _ => cut
                  | other :: after => (scan (other :: after)).fail .unfinishedSurrogate
                else (scan rest).push (encodePoint n)
            | _ => cut
    else if b < 0x20 then broken .controlCharacter .controlCharacter
    else (scan rest).push [b]

/-- The text that the bytes encode. -/
def decode (bytes : List UInt8) : Except Fault String :=
  match String.fromUTF8? bytes.toByteArray with
  | some s => .ok s
  | none => .error .invalidCodePoint

end StringScan

end ShapeSchema
