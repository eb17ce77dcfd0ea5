import ShapeSchema.Binary64.Basic

/-!
# Decimals

A decimal is a whole number times a power of ten. Reading one as a double rounds correctly
(`Decimal.toDouble?`). The other way, `Double.shortest` picks the decimal with the fewest digits
that reads back as the same double and, of those, the nearest to it; which of two equally near
ones is taken is a parameter, because the two written forms of this library differ there.
-/

namespace ShapeSchema

/-- The number `digits * 10 ^ exponent`, negated if `negative`. -/
structure Decimal where
  negative : Bool
  digits : Nat
  exponent : Int
  deriving DecidableEq

/-- How many decimal digits a whole number has; zero has one. -/
def digitCount (n : Nat) : Nat := (Nat.toDigits 10 n).length

namespace Decimal

/-- The magnitude as a fraction of whole numbers, counted in smallest doubles. -/
def fraction (d : Decimal) : Nat × Nat :=
  match d.exponent with
  | .ofNat e => ((d.digits * Nat.pow 10 e) <<< 1074, 1)
  | .negSucc e => (d.digits <<< 1074, Nat.pow 10 (e + 1))

/-- The double nearest to the decimal, or `none` if that is past the largest finite one. Far
outside the range of doubles, which ends below `10 ^ 309` and above `10 ^ (-324)`, the answer is
given without computing the power of ten. -/
def toDouble? (d : Decimal) : Option Double :=
  let size := d.exponent + digitCount d.digits
  if d.digits = 0 ∨ size < -330 then some (.zero d.negative)
  else if 320 < size then none
  else
    let (num, den) := d.fraction
    Double.nearest? d.negative num den

/-- The same number without trailing zeros in its digits, of which at most `fuel` are removed. -/
def trim : Nat → Decimal → Decimal
  | 0, d => d
  | fuel + 1, d =>
    if d.digits ≠ 0 ∧ d.digits % 10 = 0 then
      trim fuel { d with digits := d.digits / 10, exponent := d.exponent + 1 }
    else d

end Decimal

/-- Which of two equally near decimals is taken. -/
inductive Tie where
  /-- The one with the even last digit. -/
  | even
  /-- The one with the larger magnitude. -/
  | up
  deriving DecidableEq

namespace Double

/-- The double nearest to a power of ten, of those that are in range: up to `10 ^ 308`. -/
def powerOfTen (e : Nat) : Double := ((Decimal.mk false 1 e).toDouble?).getD (zero false)

/-- The double as a decimal, digit for digit. -/
def exact (x : Double) : Decimal :=
  if x.exponent < 1074 then
    ⟨x.negative, x.mantissa * Nat.pow 5 (1074 - x.exponent), -(1074 - x.exponent : Nat)⟩
  else
    ⟨x.negative, x.mantissa <<< (x.exponent - 1074), 0⟩

/-- The exponent of the leading decimal digit of a magnitude `num / den`. -/
def leadingExponent (num den : Nat) : Int :=
  if den ≤ num then (digitCount (num / den) : Int) - 1 else -(digitCount (den / num) : Int)

/-- The multiples of `10 ^ place` that stand directly below and above the double, and the
magnitude's distance to each, both in one unit. -/
def neighbours (x : Double) (place : Int) : (Decimal × Nat) × (Decimal × Nat) :=
  let (num, den) : Nat × Nat := match place with
    | .ofNat e => (x.units, Nat.pow 10 e <<< 1074)
    | .negSucc e => (x.units * Nat.pow 10 (e + 1), 1 <<< 1074)
  let low := num / den
  ((⟨x.negative, low, place⟩, num % den), (⟨x.negative, low + 1, place⟩, den - num % den))

/-- The one of the two neighbours on a grid of decimals that reads back as the double, the nearer
one if both do. -/
def onGrid? (tie : Tie) (x : Double) (place : Int) : Option Decimal :=
  let ((low, below), (high, above)) := x.neighbours place
  match decide (low.toDouble? = some x), decide (high.toDouble? = some x) with
  | false, false => none
  | true, false => some low
  | false, true => some high
  | true, true =>
    if below < above then some low
    else if above < below then some high
    else match tie with
      | .up => some high
      | .even => if low.digits % 2 = 0 then some low else some high

/-- The first of the grids with `count`, `count + 1`, … digits, of which `fuel` are tried, on which
a decimal reads back as the double. -/
def firstGrid? (tie : Tie) (x : Double) (leading : Int) : Nat → Nat → Option Decimal
  | 0, _ => none
  | fuel + 1, count =>
    match x.onGrid? tie (leading + 1 - count) with
    | some d => some d
    | none => firstGrid? tie x leading fuel (count + 1)

/-- The decimal with the fewest digits that reads back as the double, and the nearest such.
Seventeen digits always suffice. -/
def shortest (tie : Tie) (x : Double) : Decimal :=
  if x.isZero then ⟨x.negative, 0, 0⟩
  else
    let leading := leadingExponent x.units (1 <<< 1074)
    ((firstGrid? tie x leading 17 1).getD x.exact).trim 400

end Double

/-- How a decimal is laid out as text. -/
structure Layout where
  /-- Which of two equally near shortest decimals is written. -/
  tie : Tie
  /-- The exponents of the leading digit at which positional notation starts and ends; `none` if it
  is always used. Elsewhere the form is `d.dde±x`. -/
  positional : Option (Int × Int)
  /-- Whether a whole number is written with `.0` in positional notation. -/
  point : Bool

namespace Layout

/-- Digits with the decimal point at its place, `exponent` counting the zeros that follow. -/
def place (point : Bool) (digits : List Char) (exponent : Int) : List Char :=
  match exponent with
  | .ofNat e => digits ++ List.replicate e '0' ++ (if point then ['.', '0'] else [])
  | .negSucc e =>
    let decimals := e + 1
    if decimals < digits.length then
      digits.take (digits.length - decimals) ++ '.' :: digits.drop (digits.length - decimals)
    else
      '0' :: '.' :: (List.replicate (decimals - digits.length) '0' ++ digits)

/-- Digits with a point after the first and the power of ten behind them, always signed. -/
def scientific (digits : List Char) (leading : Int) : List Char :=
  let fraction := match digits.drop 1 with
    | [] => []
    | rest => '.' :: rest
  let sign := if leading < 0 then '-' else '+'
  digits.take 1 ++ fraction ++ 'e' :: sign :: Nat.toDigits 10 leading.natAbs

/-- The text of a double. -/
def write (layout : Layout) (x : Double) : List Char :=
  let d := x.shortest layout.tie
  let digits := Nat.toDigits 10 d.digits
  let leading := d.exponent + digits.length - 1
  let magnitude := match layout.positional with
    | none => place layout.point digits d.exponent
    | some (first, last) =>
      if first ≤ leading ∧ leading < last then place layout.point digits d.exponent
      else scientific digits leading
  if x.negative then '-' :: magnitude else magnitude

/-- Plain text without exponent, and without a point in whole numbers. -/
def plain : Layout := ⟨.up, none, false⟩

end Layout

namespace Binary64

/-- The number in plain notation; `NaN`, `inf` and `-inf` for the rest. -/
def plain : Binary64 → String
  | .finite x => String.ofList (Layout.plain.write x)
  | .infinite true => "-inf"
  | .infinite false => "inf"
  | .nan => "NaN"

end Binary64

end ShapeSchema
