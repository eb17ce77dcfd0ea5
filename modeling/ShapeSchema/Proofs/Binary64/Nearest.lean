import Mathlib.Algebra.Order.Field.Basic
import Mathlib.Algebra.Order.Field.Rat
import Mathlib.Data.Int.Cast.Lemmas
import ShapeSchema.Proofs.Binary64.Decimal

/-!
# Rounding to the nearest double

The number that a double is, and what rounding does to it: no double is nearer to the number that was
rounded, so that the numbers of doubles are rounded to themselves.
-/

namespace ShapeSchema.Double

/-- The number, counted in smallest doubles. -/
def scaled (x : Double) : Int := if x.negative then -x.units else x.units

/-- The number that the double is. -/
def value (x : Double) : ℚ := x.scaled / 2 ^ 1074

/-! ## Equal numbers -/

/-- The magnitude determines the mantissa and the exponent. -/
theorem parts_of_units {x y : Double} (h : x.units = y.units) :
    x.mantissa = y.mantissa ∧ x.exponent = y.exponent := by
  have hexponent : x.exponent = y.exponent := by rw [← log2_units x, ← log2_units y, h]
  refine ⟨?_, hexponent⟩
  rw [units, units, hexponent, Nat.shiftLeft_eq, Nat.shiftLeft_eq] at h
  exact Nat.mul_right_cancel (Nat.two_pow_pos _) h

theorem isZero_iff {x : Double} : x.isZero = true ↔ x.units = 0 := by
  rw [isZero, beq_iff_eq, units, Nat.shiftLeft_eq_zero_iff]

/-- Doubles are compared as numbers. -/
theorem numEq_iff_scaled {x y : Double} : x.numEq y = true ↔ x.scaled = y.scaled := by
  rw [numEq, Bool.or_eq_true, Bool.and_eq_true, beq_iff_eq, isZero_iff, isZero_iff]
  constructor
  · rintro (rfl | ⟨hx, hy⟩)
    · rfl
    · simp [scaled, hx, hy]
  · intro h
    by_cases hsign : x.negative = y.negative
    · have hunits : x.units = y.units := by
        rw [scaled, scaled, hsign] at h
        split at h <;> omega
      obtain ⟨hmantissa, hexponent⟩ := parts_of_units hunits
      left
      cases x
      cases y
      cases hsign
      cases hmantissa
      cases hexponent
      rfl
    · -- Only the two zeros have different signs and are one number.
      right
      rw [scaled, scaled] at h
      cases hx : x.negative <;> cases hy : y.negative <;> simp [hx, hy] at h hsign <;> omega

/-! ## Rounding a fraction -/

theorem roundDiv_eq (num den : Nat) :
    (roundDiv num den = num / den ∧ 2 * (num % den) ≤ den) ∨
      (roundDiv num den = num / den + 1 ∧ den ≤ 2 * (num % den)) := by
  rw [roundDiv]
  split
  · omega
  · split <;> omega

/-- No multiple is nearer than the one that rounding gives. -/
theorem roundDiv_nearest {den : Nat} (hden : 0 < den) (num k : Nat) :
    ((roundDiv num den * den : Nat) - num : Int).natAbs ≤ ((k * den : Nat) - num : Int).natAbs := by
  have hdivision : num / den * den + num % den = num := by
    rw [Nat.mul_comm]
    exact Nat.div_add_mod num den
  have hrest : num % den < den := Nat.mod_lt num hden
  have hside : k * den ≤ num / den * den ∨ num / den * den + den ≤ k * den := by
    rcases Nat.lt_or_ge (num / den) k with hk | hk
    · exact .inr (Nat.succ_mul _ _ ▸ Nat.mul_le_mul_right den hk)
    · exact .inl (Nat.mul_le_mul_right den hk)
  rcases roundDiv_eq num den with ⟨hround, hrem⟩ | ⟨hround, hrem⟩
  · rw [hround]
    omega
  · rw [hround, Nat.succ_mul]
    omega

/-! ## Rounding to 53 bits -/

/-- How many bits of the quotient are cut off. -/
def shiftOf (num den : Nat) : Nat := (num / den).log2 - 52

variable {negative : Bool} {num den : Nat} {x : Double}

theorem quotient_bounds (num den : Nat) :
    num / (den <<< shiftOf num den) < mantissaBound ∧
      (shiftOf num den = 0 ∨ leastNormal ≤ num / (den <<< shiftOf num den)) := by
  rw [Nat.shiftLeft_eq, ← Nat.div_div_eq_div_mul, shiftOf]
  generalize num / den = n
  by_cases h0 : n = 0
  · subst h0
    decide
  · have hlow : 2 ^ n.log2 ≤ n := Nat.log2_self_le h0
    have hhigh : n < 2 ^ (n.log2 + 1) := Nat.lt_log2_self
    constructor
    · refine Nat.div_lt_of_lt_mul ?_
      calc n < 2 ^ (n.log2 + 1) := hhigh
        _ ≤ 2 ^ (n.log2 - 52 + 53) := Nat.pow_le_pow_right (by decide) (by omega)
        _ = 2 ^ (n.log2 - 52) * mantissaBound := Nat.pow_add 2 _ 53
    · by_cases hlog : n.log2 ≤ 52
      · exact .inl (by omega)
      · right
        rw [Nat.le_div_iff_mul_le (Nat.two_pow_pos _)]
        calc leastNormal * 2 ^ (n.log2 - 52) = 2 ^ (52 + (n.log2 - 52)) := (Nat.pow_add 2 52 _).symm
          _ ≤ 2 ^ n.log2 := Nat.pow_le_pow_right (by decide) (by omega)
          _ ≤ n := hlow

theorem units_of_ofParts? {m e : Nat} (h : ofParts? negative m e = some x) : x.units = m * 2 ^ e := by
  rw [ofParts?] at h
  split at h
  · obtain rfl := Option.some.inj h
    exact Nat.shiftLeft_eq m e
  · cases h

/-- The magnitude is the quotient, rounded, with zeros for the bits cut off. -/
theorem units_of_nearest? (h : nearest? negative num den = some x) :
    x.units = roundDiv num (den <<< shiftOf num den) * 2 ^ shiftOf num den := by
  have hbound := (quotient_bounds num den).1
  have hround := roundDiv_eq num (den <<< shiftOf num den)
  have hcases : (if roundDiv num (den <<< shiftOf num den) < mantissaBound then
      ofParts? negative (roundDiv num (den <<< shiftOf num den)) (shiftOf num den) else
      ofParts? negative leastNormal (shiftOf num den + 1)) = some x := h
  split at hcases
  · exact units_of_ofParts? hcases
  · -- The mantissa was rounded up to the first number with one more bit.
    have hdouble : mantissaBound = 2 * leastNormal := rfl
    have hcarry : roundDiv num (den <<< shiftOf num den) = 2 * leastNormal := by omega
    rw [units_of_ofParts? hcases, hcarry, Nat.pow_succ', Nat.mul_left_comm, ← Nat.mul_assoc]

theorem exists_nearest? (negative : Bool) (h : shiftOf num den ≤ 2044) :
    ∃ x, nearest? negative num den = some x := by
  obtain ⟨hbound, hnormal⟩ := quotient_bounds num den
  have hround := roundDiv_eq num (den <<< shiftOf num den)
  have hsome : ∀ {m e : Nat}, m < mantissaBound → e ≤ 2045 → (e = 0 ∨ leastNormal ≤ m) →
      ∃ x, ofParts? negative m e = some x := fun hm he hnormal =>
    ⟨_, dif_pos ⟨hm, he, hnormal⟩⟩
  show ∃ x, (if roundDiv num (den <<< shiftOf num den) < mantissaBound then
      ofParts? negative (roundDiv num (den <<< shiftOf num den)) (shiftOf num den) else
      ofParts? negative leastNormal (shiftOf num den + 1)) = some x
  split
  · exact hsome ‹_› (by omega) (by omega)
  · exact hsome (by decide) (by omega) (.inr (Nat.le_refl _))

/-- **Rounding is to the nearest.** No double has a magnitude that is nearer to the fraction. -/
theorem nearest?_le (hden : 0 < den) (h : nearest? negative num den = some x) (y : Double) :
    ((x.units * den : Nat) - num : Int).natAbs ≤ ((y.units * den : Nat) - num : Int).natAbs := by
  obtain ⟨-, hnormal⟩ := quotient_bounds num den
  have hx : x.units * den = roundDiv num (den <<< shiftOf num den) * (den <<< shiftOf num den) := by
    rw [units_of_nearest? h, Nat.shiftLeft_eq, Nat.mul_assoc, Nat.mul_comm den]
  have hunit : 0 < den <<< shiftOf num den := by
    rw [Nat.shiftLeft_eq]
    exact Nat.mul_pos hden (Nat.two_pow_pos _)
  rw [hx]
  rcases Nat.lt_or_ge y.exponent (shiftOf num den) with hexponent | hexponent
  · -- A double with a finer unit is no larger than the least number of 53 of the coarser units.
    have hlow : leastNormal * (den <<< shiftOf num den) ≤ num :=
      (Nat.le_div_iff_mul_le hunit).mp (hnormal.resolve_left (by omega))
    have hy : y.units * den ≤ leastNormal * (den <<< shiftOf num den) := by
      have hunits : y.units ≤ leastNormal * 2 ^ shiftOf num den := by
        rw [units, Nat.shiftLeft_eq]
        calc y.mantissa * 2 ^ y.exponent ≤ mantissaBound * 2 ^ (shiftOf num den - 1) :=
            Nat.mul_le_mul (Nat.le_of_lt y.mantissa_lt) (Nat.pow_le_pow_right (by decide) (by omega))
          _ = leastNormal * 2 ^ (shiftOf num den - 1 + 1) := by
            rw [Nat.pow_succ', ← Nat.mul_assoc]
            rfl
          _ = leastNormal * 2 ^ shiftOf num den := by rw [Nat.sub_add_cancel (by omega)]
      calc y.units * den ≤ leastNormal * 2 ^ shiftOf num den * den := Nat.mul_le_mul_right den hunits
        _ = leastNormal * (den <<< shiftOf num den) := by
          rw [Nat.shiftLeft_eq, Nat.mul_assoc, Nat.mul_comm den]
    have hnearest := roundDiv_nearest hunit num leastNormal
    omega
  · -- A double with that many zeros is a multiple of the unit.
    have hy : y.units * den = y.mantissa * 2 ^ (y.exponent - shiftOf num den) *
        (den <<< shiftOf num den) := by
      calc y.units * den = y.mantissa * 2 ^ y.exponent * den := by rw [units, Nat.shiftLeft_eq]
        _ = y.mantissa * (2 ^ (y.exponent - shiftOf num den) * 2 ^ shiftOf num den) * den := by
          rw [← Nat.pow_add, Nat.sub_add_cancel hexponent]
        _ = y.mantissa * 2 ^ (y.exponent - shiftOf num den) * (den <<< shiftOf num den) := by
          rw [Nat.shiftLeft_eq, Nat.mul_comm den, ← Nat.mul_assoc, ← Nat.mul_assoc]
    rw [hy]
    exact roundDiv_nearest hunit num _

/-! ## Magnitudes of doubles -/

theorem shiftLeft_mul_two_pow (m e d : Nat) : (m * 2 ^ e) <<< d = m * 2 ^ (e + d) := by
  rw [Nat.shiftLeft_eq, Nat.mul_assoc, ← Nat.pow_add]

theorem eq_mul_two_pow {m n d e : Nat} (hle : d ≤ e) (h : m <<< e = n <<< d) :
    n = m * 2 ^ (e - d) := by
  refine Nat.mul_right_cancel (Nat.two_pow_pos d) ?_
  rw [← Nat.shiftLeft_eq n, ← h, Nat.shiftLeft_eq, Nat.mul_assoc, ← Nat.pow_add,
    Nat.sub_add_cancel hle]

/-- Numbers of 53 bits with zeros behind them are magnitudes of doubles, with either sign. -/
theorem exists_units (negative : Bool) {m e : Nat} (hm : m < mantissaBound) (he : e ≤ 2045) :
    ∃ x : Double, x.negative = negative ∧ x.units = m * 2 ^ e := by
  by_cases h0 : m = 0
  · exact ⟨zero negative, rfl, by rw [h0, Nat.zero_mul]; rfl⟩
  -- The number is shifted up until it has 53 bits, or its last place is that of the smallest double.
  obtain ⟨places, hplaces, hlow, hnormal⟩ : ∃ places ≤ e, m * 2 ^ places < mantissaBound ∧
      (e - places = 0 ∨ leastNormal ≤ m * 2 ^ places) := by
    have hlog : m.log2 < 53 := (Nat.log2_lt h0).mpr hm
    have hlower : 2 ^ m.log2 ≤ m := Nat.log2_self_le h0
    have hupper : m < 2 ^ (m.log2 + 1) := Nat.lt_log2_self
    refine ⟨min e (52 - m.log2), Nat.min_le_left .., ?_, ?_⟩
    · calc m * 2 ^ min e (52 - m.log2) < 2 ^ (m.log2 + 1) * 2 ^ min e (52 - m.log2) :=
          Nat.mul_lt_mul_of_pos_right hupper (Nat.two_pow_pos _)
        _ = 2 ^ (m.log2 + 1 + min e (52 - m.log2)) := (Nat.pow_add ..).symm
        _ ≤ 2 ^ 53 := Nat.pow_le_pow_right (by decide) (by omega)
    · rcases Nat.le_total e (52 - m.log2) with hle | hle
      · exact .inl (by omega)
      · right
        calc leastNormal = 2 ^ (m.log2 + min e (52 - m.log2)) := by
              rw [show m.log2 + min e (52 - m.log2) = 52 by omega]
              rfl
          _ = 2 ^ m.log2 * 2 ^ min e (52 - m.log2) := Nat.pow_add ..
          _ ≤ m * 2 ^ min e (52 - m.log2) := Nat.mul_le_mul_right _ hlower
  refine ⟨⟨negative, m * 2 ^ places, e - places, hlow, by omega, hnormal⟩, rfl, ?_⟩
  rw [units, shiftLeft_mul_two_pow, Nat.add_sub_cancel' hplaces]

/-! ## Rounding a whole number -/

theorem shiftOf_le {n bits zeros : Nat} (hn : n < 2 ^ bits) (h : bits + zeros ≤ 2097) :
    shiftOf (n <<< zeros) 1 ≤ 2044 := by
  have hlt : n <<< zeros < 2 ^ (bits + zeros) := by
    rw [Nat.shiftLeft_eq, Nat.pow_add]
    exact Nat.mul_lt_mul_of_pos_right hn (Nat.two_pow_pos zeros)
  rw [shiftOf, Nat.div_one]
  by_cases h0 : n <<< zeros = 0
  · rw [h0, Nat.log2_zero]
    omega
  · have hlog := (Nat.log2_lt h0).mpr hlt
    omega

theorem mul_two_pow (i : Int) (zeros : Nat) : i * 2 ^ zeros =
    if i < 0 then -((i.natAbs <<< zeros : Nat) : Int) else (i.natAbs <<< zeros : Nat) := by
  have hcast : ((i.natAbs <<< zeros : Nat) : Int) = i.natAbs * 2 ^ zeros := by
    rw [Nat.shiftLeft_eq, Int.natCast_mul, Int.natCast_pow]
    rfl
  rw [hcast, ← Int.neg_mul]
  split
  · rw [Int.ofNat_natAbs_of_nonpos (by omega), Int.neg_neg]
  · rw [Int.natAbs_of_nonneg (by omega)]

variable {i : Int}

/-- Whole numbers of 64 bits, with or without sign, are in range. -/
theorem nearest?_ofInt (h : i.natAbs < 2 ^ 64) :
    nearest? (i < 0) (i.natAbs <<< 1074) 1 = some (ofInt i) := by
  have hshift : shiftOf (i.natAbs <<< 1074) 1 ≤ 2044 := shiftOf_le h (by decide)
  obtain ⟨x, hx⟩ := exists_nearest? (i < 0) hshift
  rw [ofInt, hx, Option.getD_some]

/-- No double is nearer to a whole number than the one that it is rounded to. -/
theorem ofInt_nearest (h : i.natAbs < 2 ^ 64) (y : Double) :
    ((ofInt i).scaled - i * 2 ^ 1074).natAbs ≤ (y.scaled - i * 2 ^ 1074).natAbs := by
  have hnearest := nearest?_ofInt h
  have hsign : (ofInt i).negative = decide (i < 0) := negative_of_nearest? hnearest
  have hle := nearest?_le Nat.one_pos hnearest y
  rw [mul_two_pow i, scaled, scaled, hsign]
  generalize i.natAbs <<< 1074 = magnitude at hle ⊢
  cases y.negative <;> by_cases hneg : i < 0 <;> simp [hneg] at hle ⊢ <;> omega

end ShapeSchema.Double
