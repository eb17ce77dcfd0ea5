/-!
# Binary64 numbers

A double is kept as its sign, its mantissa and its exponent, in the one form in which the format
stores it, so that two finite doubles are the same number with the same sign of zero exactly when
they are equal. `Double.nearest?` is the rounding of the format: to the nearest double, a tie to
the even mantissa, nothing where the magnitude is too large.
-/

namespace ShapeSchema

/-- The first number of 53 bits, the size of a mantissa: `2 ^ 52`. -/
abbrev leastNormal : Nat := 0x10000000000000

/-- The first number of more than 53 bits: `2 ^ 53`. -/
abbrev mantissaBound : Nat := 0x20000000000000

/-- A finite double: `mantissa * 2 ^ (exponent - 1074)`, negated if `negative`. -/
structure Double where
  /-- The sign bit; zero has one too. -/
  negative : Bool
  /-- The magnitude in units of the last place. -/
  mantissa : Nat
  /-- The exponent of the last place, counted from that of the smallest double. -/
  exponent : Nat
  mantissa_lt : mantissa < mantissaBound
  exponent_le : exponent ≤ 2045
  normal : exponent = 0 ∨ leastNormal ≤ mantissa
  deriving DecidableEq

/-- A 64-bit floating point datum. The payload of a NaN is not kept. -/
inductive Binary64 where
  | finite (value : Double)
  | infinite (negative : Bool)
  | nan
  deriving DecidableEq

namespace Double

/-- Zero with the given sign. -/
def zero (negative : Bool) : Double := ⟨negative, 0, 0, by decide, by decide, by decide⟩

instance : Inhabited Double := ⟨zero false⟩

/-- The double with these three parts, if they are in the stored form. -/
def ofParts? (negative : Bool) (mantissa exponent : Nat) : Option Double :=
  if h : mantissa < mantissaBound ∧ exponent ≤ 2045 ∧ (exponent = 0 ∨ leastNormal ≤ mantissa) then
    some ⟨negative, mantissa, exponent, h.1, h.2.1, h.2.2⟩
  else
    none

/-- The magnitude as a whole number of smallest doubles, `2 ^ (-1074)` each. -/
def units (x : Double) : Nat := x.mantissa <<< x.exponent

/-- Whether the number is zero, of either sign. -/
def isZero (x : Double) : Bool := x.mantissa == 0

/-- Equality of the numbers: the two zeros are one number. -/
def numEq (x y : Double) : Bool := x == y || (x.isZero && y.isZero)

/-- The quotient rounded to the nearest whole number, a tie to the even one. -/
def roundDiv (num den : Nat) : Nat :=
  let q := num / den
  let twice := 2 * (num % den)
  if twice < den then q else if den < twice then q + 1 else q + q % 2

/-- The double nearest to the magnitude `num / den`, counted in smallest doubles: the quotient is
rounded to 53 significant bits, or to a whole number where that is coarser. `none` if it is too
large for a finite double. -/
def nearest? (negative : Bool) (num den : Nat) : Option Double :=
  let shift := (num / den).log2 - 52
  let m := roundDiv num (den <<< shift)
  if m < mantissaBound then ofParts? negative m shift else ofParts? negative leastNormal (shift + 1)

/-- The double nearest to a whole number. A number past the range of doubles gives zero; those
below `2 ^ 1023` in magnitude are all in range. -/
def ofInt (i : Int) : Double :=
  (nearest? (i < 0) (i.natAbs <<< 1074) 1).getD (zero false)

/-- The product of two doubles, rounded; `none` if it is too large. -/
def mul? (x y : Double) : Option Double :=
  nearest? (x.negative != y.negative) (x.units * y.units) (1 <<< 1074)

/-- The quotient of two doubles, rounded; `none` if it is too large, or there is none. -/
def div? (x y : Double) : Option Double :=
  if y.isZero then none else nearest? (x.negative != y.negative) (x.units <<< 1074) y.units

end Double

namespace Binary64

/-- Equality of floating point numbers: NaN differs from everything, the two zeros are equal. -/
def numEq : Binary64 → Binary64 → Bool
  | .finite x, .finite y => x.numEq y
  | .infinite s, .infinite t => s == t
  | _, _ => false

/-- Equality under which NaN is equal to itself and the two zeros are equal. -/
def same : Binary64 → Binary64 → Bool
  | .nan, .nan => true
  | x, y => x.numEq y

end Binary64

end ShapeSchema
