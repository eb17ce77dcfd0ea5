import ShapeSchema.Load.Source

/-!
# Numbers in a text

A number without fraction and exponent is a whole number if it has at most 64 bits, except minus
zero; every other number is read as a double, and one that is too large for a double has no value.

As which double it is read is up to a `FloatReader`. The one that reads texts, `FloatReader.scaled`,
is fast and not exact: it keeps the digits that fit in 64 bits, rounds them to a double, and multiplies
or divides that by a power of ten, which rounds again. `FloatReader.nearest` rounds once.
-/

namespace ShapeSchema

namespace NumberLiteral

/-- Whether a byte is a decimal digit. -/
def isDigit (b : UInt8) : Bool := 0x30 ≤ b && b ≤ 0x39

/-- The value of a row of digits. -/
def ofDigits (digits : List UInt8) : Nat := Nat.ofDigitChars 10 (digits.map Char.ofUInt8) 0

end NumberLiteral

/-- A number as it is written. -/
structure Numeral where
  negative : Bool
  /-- The digits before the point. -/
  digits : List UInt8
  /-- The digits behind the point; none if there is no point. -/
  fraction : List UInt8
  /-- The power of ten that is written behind the digits. -/
  exponent : Int

/-- The number that a numeral stands for. -/
def Numeral.decimal (n : Numeral) : Decimal :=
  ⟨n.negative, NumberLiteral.ofDigits (n.digits ++ n.fraction), n.exponent - n.fraction.length⟩

/-- A way of reading numbers as doubles; `none` stands for a number that is too large. -/
abbrev FloatReader := Numeral → Option Double

namespace FloatReader

/-- Read the nearest double. -/
def nearest : FloatReader := fun n => n.decimal.toDouble?

/-- Take digits into a number while it fits in 64 bits; the number, and the digits that are left. -/
def takeDigits : Nat → List UInt8 → Nat × List UInt8
  | n, [] => (n, [])
  | n, b :: rest =>
    let next := 10 * n + (b.toNat - 0x30)
    if next < 0x10000000000000000 then takeDigits next rest else (n, b :: rest)

/-- Divide by `10 ^ (308 * count + power)`, as long as there is anything left: by `10 ^ 308` each
time, and by the rest in the end. -/
def divide (power : Nat) : Nat → Double → Option Double
  | 0, x => x.div? (.powerOfTen power)
  | count + 1, x =>
    if x.isZero then some x
    else match x.div? (.powerOfTen 308) with
      | some y => divide power count y
      | none => none

/-- A double times a power of ten. No power of ten past `10 ^ 308` is a double. -/
def scale (x : Double) : Int → Option Double
  | .ofNat e =>
    if e ≤ 308 then x.mul? (.powerOfTen e) else if x.isZero then some x else none
  | .negSucc e => divide (e % 308 + 1) (e / 308) x

/-- Read the digits that fit in 64 bits, and scale them by the power of ten that is due then. The
digits before the point that do not fit count for it; those behind the point that do not are dropped,
and so is every digit after one that was. -/
def scaled : FloatReader := fun n =>
  let (whole, left) := takeDigits 0 n.digits
  let (significand, dropped) := takeDigits whole n.fraction
  let exponent := n.exponent + left.length - (n.fraction.length - dropped.length : Nat)
  (scale (.ofInt significand) exponent).map fun x => { x with negative := n.negative }

end FloatReader

namespace NumberLiteral

/-- A number that breaks before `rest`; one that is skipped is invalid even where the text ends. -/
def broken (rest : List UInt8) : Source × List UInt8 :=
  (.broken .other (if rest.isEmpty then .endInValue else .invalidNumber) .invalidNumber, [])

variable (reader : FloatReader)

/-- The value of a number that is read as a double. -/
def double (n : Numeral) : Except Fault Number :=
  match reader n with
  | some x => .ok (.float x)
  | none => .error .numberOutOfRange

/-- The value of a number without fraction and exponent. -/
def whole (negative : Bool) (digits : List UInt8) : Except Fault Number :=
  let i : Int := if negative then -(ofDigits digits) else ofDigits digits
  if (negative ∧ i = 0) ∨ ¬(IsInt64 i ∨ IsUInt64 i) then
    double reader ⟨negative, digits, [], 0⟩
  else .ok (.int i)

/-- An optional sign. -/
def splitSign : List UInt8 → Bool × List UInt8
  | 0x2D :: rest => (true, rest)
  | 0x2B :: rest => (false, rest)
  | rest => (false, rest)

/-- The exponent, behind its letter, of a number with these digits before and after the point. -/
def scanExponent (negative : Bool) (digits fraction rest : List UInt8) : Source × List UInt8 :=
  let (minus, rest) := splitSign rest
  let power := rest.takeWhile isDigit
  if power.isEmpty then broken rest
  else
    let e : Int := if minus then -(ofDigits power) else ofDigits power
    (.number (double reader ⟨negative, digits, fraction, e⟩), rest.dropWhile isDigit)

/-- What follows the digits before the point and, if there is a point, the digits after it. -/
def scanTail (negative : Bool) (digits : List UInt8) (fraction : Option (List UInt8)) :
    List UInt8 → Source × List UInt8
  | b :: rest =>
    if b = 0x65 ∨ b = 0x45 then scanExponent reader negative digits (fraction.getD []) rest
    else (plainValue, b :: rest)
  | [] => (plainValue, [])
where
  /-- The number if there is no exponent. -/
  plainValue : Source :=
    match fraction with
    | none => .number (whole reader negative digits)
    | some fraction => .number (double reader ⟨negative, digits, fraction, 0⟩)

/-- A number, from its sign or first digit on. -/
def scan (bytes : List UInt8) : Source × List UInt8 :=
  let (negative, rest) : Bool × List UInt8 := match bytes with
    | 0x2D :: rest => (true, rest)
    | _ => (false, bytes)
  let digits := rest.takeWhile isDigit
  let rest := rest.dropWhile isDigit
  match digits with
  | [] => broken rest
  | 0x30 :: _ :: _ => (.broken .other .invalidNumber .invalidNumber, [])
  | _ =>
    match rest with
    | 0x2E :: rest =>
      let fraction := rest.takeWhile isDigit
      if fraction.isEmpty then broken rest
      else scanTail reader negative digits (some fraction) (rest.dropWhile isDigit)
    | _ => scanTail reader negative digits none rest

end NumberLiteral

namespace Binary64

/-- A decimal as a floating point number, infinite if it is too large. -/
def ofDecimal (d : Decimal) : Binary64 :=
  match d.toDouble? with
  | some x => .finite x
  | none => .infinite d.negative

/-- The power of ten behind the digits of a number: none, or a letter with a whole number. -/
def exponentOf? : List UInt8 → Option Int
  | [] => some 0
  | b :: rest =>
    let (minus, power) := NumberLiteral.splitSign rest
    if (b = 0x65 ∨ b = 0x45) ∧ power ≠ [] ∧ power.all NumberLiteral.isDigit then
      some (if minus then -(NumberLiteral.ofDigits power) else NumberLiteral.ofDigits power)
    else none

/-- A floating point number from a text that is nothing else. More is allowed than in JSON: a sign
of either kind, digits on one side of the point only, numbers that are too large, and the words
`nan`, `inf` and `infinity`, whatever their case. -/
def ofText? (text : String) : Option Binary64 :=
  let (negative, rest) := NumberLiteral.splitSign text.toByteArray.data.toList
  let word := rest.map fun b => (Char.ofUInt8 b).toLower
  if word = "nan".toList then some .nan
  else if word = "inf".toList ∨ word = "infinity".toList then some (.infinite negative)
  else
    let digits := rest.takeWhile NumberLiteral.isDigit
    let (fraction, rest) : List UInt8 × List UInt8 :=
      match rest.dropWhile NumberLiteral.isDigit with
      | 0x2E :: rest =>
        (rest.takeWhile NumberLiteral.isDigit, rest.dropWhile NumberLiteral.isDigit)
      | rest => ([], rest)
    if digits = [] ∧ fraction = [] then none
    else (exponentOf? rest).map fun e =>
      ofDecimal ⟨negative, NumberLiteral.ofDigits (digits ++ fraction), e - fraction.length⟩

end Binary64

end ShapeSchema
