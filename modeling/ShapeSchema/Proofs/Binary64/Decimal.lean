import Mathlib.Algebra.Group.Nat.Defs
import ShapeSchema.Binary64.Decimal

/-!
# Decimals that read back

The shortest decimal of a double is read as that double. Where the search over the grids finds one,
it has checked so; the decimal that is digit for digit the double is read without any rounding.
-/

namespace ShapeSchema

/-! ## Rounding fractions -/

theorem mul_shiftLeft (n c k : Nat) : (n * c) <<< k = n <<< k * c := by
  rw [Nat.shiftLeft_eq, Nat.shiftLeft_eq, Nat.mul_right_comm]

namespace Double

theorem roundDiv_mul {c : Nat} (hc : 0 < c) (num den : Nat) :
    roundDiv (num * c) (den * c) = roundDiv num den := by
  have hlt : 2 * (num % den * c) < den * c ↔ 2 * (num % den) < den := by
    rw [← Nat.mul_assoc]
    exact Nat.mul_lt_mul_right hc
  have hgt : den * c < 2 * (num % den * c) ↔ den < 2 * (num % den) := by
    rw [← Nat.mul_assoc]
    exact Nat.mul_lt_mul_right hc
  simp only [roundDiv, Nat.mul_div_mul_right _ _ hc, Nat.mul_mod_mul_right, hlt, hgt]

theorem roundDiv_one (num : Nat) : roundDiv num 1 = num := by
  simp [roundDiv, Nat.mod_one]

/-- The nearest double depends on the fraction alone, not on how it is written. -/
theorem nearest?_mul {c : Nat} (hc : 0 < c) (negative : Bool) (num den : Nat) :
    nearest? negative (num * c) (den * c) = nearest? negative num den := by
  simp only [nearest?, Nat.mul_div_mul_right _ _ hc, mul_shiftLeft, roundDiv_mul hc]

theorem negative_of_ofParts? {negative : Bool} {m e : Nat} {x : Double}
    (h : ofParts? negative m e = some x) : x.negative = negative := by
  rw [ofParts?] at h
  split at h
  · obtain rfl := Option.some.inj h
    rfl
  · cases h

theorem negative_of_nearest? {negative : Bool} {num den : Nat} {x : Double}
    (h : nearest? negative num den = some x) : x.negative = negative := by
  simp only [nearest?] at h
  split at h
  · exact negative_of_ofParts? h
  · exact negative_of_ofParts? h

theorem ofParts?_self (x : Double) : ofParts? x.negative x.mantissa x.exponent = some x :=
  dif_pos ⟨x.mantissa_lt, x.exponent_le, x.normal⟩

/-- The leading bit of a double stands 52 places before its last. -/
theorem log2_units (x : Double) : x.units.log2 - 52 = x.exponent := by
  have hm : x.mantissa < 2 ^ 53 := x.mantissa_lt
  rcases x.normal with he | hnormal
  · -- A subnormal double may have fewer bits, but then the subtraction stops at zero.
    have hunits : x.units = x.mantissa := by rw [units, he, Nat.shiftLeft_zero]
    rw [hunits, he]
    by_cases h0 : x.mantissa = 0
    · rw [h0]
      rfl
    · have hlog : x.mantissa.log2 < 53 := (Nat.log2_lt h0).mpr hm
      omega
  · have hlow : 2 ^ 52 ≤ x.mantissa := hnormal
    have hlog : x.units.log2 = 52 + x.exponent := by
      rw [units, Nat.shiftLeft_eq, Nat.log2_eq_iff, Nat.pow_add, Nat.add_right_comm, Nat.pow_add]
      · exact ⟨Nat.mul_le_mul_right _ hlow, Nat.mul_lt_mul_of_pos_right hm (Nat.two_pow_pos _)⟩
      · exact Nat.mul_ne_zero (by omega) (Nat.ne_of_gt (Nat.two_pow_pos _))
    omega

/-- A fraction that is a double is rounded to that double. -/
theorem nearest?_units (x : Double) {c : Nat} (hc : 0 < c) :
    nearest? x.negative (x.units * c) c = some x := by
  have hone : nearest? x.negative (x.units * c) (1 * c) = nearest? x.negative x.units 1 :=
    nearest?_mul hc _ _ _
  have hround : roundDiv x.units (1 <<< x.exponent) = x.mantissa := by
    have hmul := roundDiv_mul (Nat.two_pow_pos x.exponent) x.mantissa 1
    rw [roundDiv_one] at hmul
    rw [units, Nat.shiftLeft_eq, Nat.shiftLeft_eq]
    exact hmul
  rw [Nat.one_mul] at hone
  rw [hone]
  simp only [nearest?, Nat.div_one, log2_units, hround, if_pos x.mantissa_lt, ofParts?_self]

theorem eq_zero_of_isZero {x : Double} (h : x.isZero = true) : x = zero x.negative := by
  obtain ⟨negative, m, e, hm, he, hnormal⟩ := x
  obtain rfl : m = 0 := by simpa [isZero] using h
  obtain rfl : e = 0 := by
    rcases hnormal with he | hlow
    · exact he
    · exact absurd hlow (by decide)
  rfl

end Double

/-! ## Decimals of one value -/

theorem digitCount_le_iff {n k : Nat} : digitCount n ≤ k + 1 ↔ n < 10 ^ (k + 1) :=
  Nat.length_toDigits_le_iff (by decide) (Nat.succ_pos k)

theorem digitCount_mul_ten {n : Nat} (hn : n ≠ 0) : digitCount (n * 10) = digitCount n + 1 := by
  have happend : Nat.toDigits 10 n ++ Nat.toDigits 10 0 = Nat.toDigits 10 (10 * n + 0) :=
    Nat.toDigits_append_toDigits (by decide) (Nat.pos_of_ne_zero hn) (by decide)
  rw [digitCount, digitCount, Nat.mul_comm, ← Nat.add_zero (10 * n), ← happend, List.length_append]
  rfl

namespace Decimal

theorem fraction_ofNat (negative : Bool) (digits e : Nat) :
    fraction ⟨negative, digits, .ofNat e⟩ = ((digits * 10 ^ e) <<< 1074, 1) := rfl

theorem fraction_negSucc (negative : Bool) (digits e : Nat) :
    fraction ⟨negative, digits, .negSucc e⟩ = (digits <<< 1074, 10 ^ (e + 1)) := rfl

/-- One digit more, and a smaller power of ten: the decimal is read as before. -/
theorem toDouble?_mul_ten (negative : Bool) (digits : Nat) (e : Int) :
    (Decimal.mk negative (digits * 10) (e - 1)).toDouble? = (Decimal.mk negative digits e).toDouble? := by
  by_cases h0 : digits = 0
  · subst h0
    rfl
  · have hsize : e - 1 + (digitCount (digits * 10) : Int) = e + digitCount digits := by
      rw [digitCount_mul_ten h0]
      omega
    have hzero : digits * 10 = 0 ↔ digits = 0 := by omega
    have hnearest :
        Double.nearest? negative (fraction ⟨negative, digits * 10, e - 1⟩).1
            (fraction ⟨negative, digits * 10, e - 1⟩).2 =
          Double.nearest? negative (fraction ⟨negative, digits, e⟩).1
            (fraction ⟨negative, digits, e⟩).2 := by
      match e with
      | .ofNat 0 =>
        -- Here the power of ten moves from the numerator to the denominator.
        rw [show Int.ofNat 0 - 1 = Int.negSucc 0 from rfl, fraction_negSucc, fraction_ofNat,
          mul_shiftLeft, Nat.pow_succ, Double.nearest?_mul (by decide), Nat.pow_zero, Nat.mul_one]
      | .ofNat (k + 1) =>
        rw [show Int.ofNat (k + 1) - 1 = Int.ofNat k from
          Int.add_sub_cancel (Int.ofNat k) 1, fraction_ofNat, fraction_ofNat,
          Nat.pow_succ', Nat.mul_assoc]
      | .negSucc k =>
        rw [show Int.negSucc k - 1 = Int.negSucc (k + 1) from rfl, fraction_negSucc,
          fraction_negSucc, mul_shiftLeft, Nat.pow_succ, Double.nearest?_mul (by decide)]
    simp only [toDouble?, hsize, hzero, hnearest]

theorem toDouble?_mul_pow (negative : Bool) (digits : Nat) (e : Int) (k : Nat) :
    (Decimal.mk negative (digits * 10 ^ k) (e - k)).toDouble? =
      (Decimal.mk negative digits e).toDouble? := by
  induction k with
  | zero => simp
  | succ k ih =>
    rw [Nat.pow_succ, ← Nat.mul_assoc, Int.natCast_add, ← Int.sub_sub]
    exact (toDouble?_mul_ten negative (digits * 10 ^ k) (e - k)).trans ih

/-- Removing zeros at the end does not change what the decimal is read as. -/
theorem toDouble?_trim (fuel : Nat) (d : Decimal) : (d.trim fuel).toDouble? = d.toDouble? := by
  induction fuel generalizing d with
  | zero => rfl
  | succ fuel ih =>
    rw [trim]
    split
    · rename_i h
      rw [ih]
      have hmul := toDouble?_mul_ten d.negative (d.digits / 10) (d.exponent + 1)
      rw [Nat.div_mul_cancel (Nat.dvd_of_mod_eq_zero h.2), Int.add_sub_cancel] at hmul
      exact hmul.symm
    · rfl

theorem negative_of_toDouble? {d : Decimal} {x : Double} (h : d.toDouble? = some x) :
    x.negative = d.negative := by
  rw [toDouble?] at h
  split at h
  · obtain rfl := Option.some.inj h
    rfl
  · split at h
    · cases h
    · exact Double.negative_of_nearest? h

end Decimal

theorem Decimal.toDouble?_eq_nearest? {negative : Bool} {digits : Nat} {e : Int} (h0 : digits ≠ 0)
    (hlow : -330 ≤ e + digitCount digits) (hhigh : e + digitCount digits ≤ 320) :
    (Decimal.mk negative digits e).toDouble? = Double.nearest? negative
      (fraction ⟨negative, digits, e⟩).1 (fraction ⟨negative, digits, e⟩).2 := by
  rw [toDouble?]
  simp only [h0, false_or, if_neg (Int.not_lt.mpr hlow), if_neg (Int.not_lt.mpr hhigh)]

/-! ## Exact decimals -/

namespace Double

/-- A multiple of a power of five has about seven tenths as many digits as that power has factors. -/
theorem lt_digitCount_mul_pow_five {m k c : Nat} (hm : 0 < m) (hk : k ≤ 23 * c) :
    k < digitCount (m * 5 ^ k) + (7 * c + 1) := by
  have hpos : 0 < digitCount (m * 5 ^ k) := Nat.length_toDigits_pos
  -- Seven fives weigh more than sixteen twos.
  have hpow : 2 ^ (16 * c) ≤ 5 ^ (7 * c) := by
    rw [Nat.pow_mul, Nat.pow_mul]
    exact Nat.pow_le_pow_left (by decide) c
  refine Nat.lt_of_not_le fun h => ?_
  obtain ⟨j, rfl⟩ : ∃ j, k = j + 1 + 7 * c := ⟨k - (7 * c + 1), by omega⟩
  have hlt : m * 5 ^ (j + 1 + 7 * c) < 10 ^ (j + 1) := digitCount_le_iff.mp (by omega)
  refine absurd hlt (Nat.not_lt_of_le ?_)
  calc 10 ^ (j + 1) = 5 ^ (j + 1) * 2 ^ (j + 1) := Nat.mul_pow 5 2 (j + 1)
    _ ≤ 5 ^ (j + 1) * 2 ^ (16 * c) :=
      Nat.mul_le_mul_left _ (Nat.pow_le_pow_right (by decide) (by omega))
    _ ≤ 5 ^ (j + 1) * 5 ^ (7 * c) := Nat.mul_le_mul_left _ hpow
    _ = 5 ^ (j + 1 + 7 * c) := (Nat.pow_add 5 (j + 1) (7 * c)).symm
    _ ≤ m * 5 ^ (j + 1 + 7 * c) := Nat.le_mul_of_pos_left _ hm

theorem digitCount_mul_pow_five_le {m k : Nat} (hm : m < mantissaBound) :
    digitCount (m * 5 ^ k) ≤ k + 16 := by
  have hten : 5 ^ k ≤ 10 ^ k := Nat.pow_le_pow_left (by decide) k
  refine digitCount_le_iff.mpr ?_
  calc m * 5 ^ k < mantissaBound * 5 ^ k := Nat.mul_lt_mul_of_pos_right hm (Nat.pow_pos (by decide))
    _ ≤ 10 ^ 16 * 10 ^ k := Nat.mul_le_mul (by decide) hten
    _ = 10 ^ (k + 15 + 1) := by rw [← Nat.pow_add, Nat.add_comm]

theorem digitCount_shiftLeft_le {m k c : Nat} (hm : m < mantissaBound) (hk : k ≤ 13 * c) :
    digitCount (m <<< k) ≤ 4 * c + 16 := by
  -- Four tens weigh more than thirteen twos.
  have hpow : 2 ^ (13 * c) ≤ 10 ^ (4 * c) := by
    rw [Nat.pow_mul, Nat.pow_mul]
    exact Nat.pow_le_pow_left (by decide) c
  refine digitCount_le_iff.mpr ?_
  rw [Nat.shiftLeft_eq]
  calc m * 2 ^ k < mantissaBound * 2 ^ k := Nat.mul_lt_mul_of_pos_right hm (Nat.two_pow_pos k)
    _ ≤ 10 ^ 16 * 10 ^ (4 * c) :=
      Nat.mul_le_mul (by decide) (Nat.le_trans (Nat.pow_le_pow_right (by decide) hk) hpow)
    _ = 10 ^ (4 * c + 15 + 1) := by rw [← Nat.pow_add, Nat.add_comm]

/-- The double's own decimal is read as the double. -/
theorem exact_toDouble? {x : Double} (hx : x.isZero = false) : x.exact.toDouble? = some x := by
  have hm : 0 < x.mantissa := by
    refine Nat.pos_of_ne_zero fun h => ?_
    rw [isZero, h] at hx
    cases hx
  by_cases he : x.exponent < 1074
  · -- Behind the point there are as many decimals as the exponent is below that of one.
    obtain ⟨j, hj⟩ : ∃ j, 1074 - x.exponent = j + 1 := ⟨1074 - x.exponent - 1, by omega⟩
    have hexact : x.exact = ⟨x.negative, x.mantissa * 5 ^ (j + 1), .negSucc j⟩ := by
      rw [exact, if_pos he, hj]
      rfl
    have hlow := lt_digitCount_mul_pow_five (c := 47) hm (show j + 1 ≤ 23 * 47 by omega)
    have hhigh := digitCount_mul_pow_five_le (k := j + 1) x.mantissa_lt
    have hunits : (x.mantissa * 5 ^ (j + 1)) <<< 1074 = x.units * 10 ^ (j + 1) := by
      have hsplit : 1074 = x.exponent + (j + 1) := by omega
      calc (x.mantissa * 5 ^ (j + 1)) <<< 1074
        _ = (x.mantissa * 5 ^ (j + 1)) <<< (x.exponent + (j + 1)) := congrArg _ hsplit
        _ = (x.units * 5 ^ (j + 1)) <<< (j + 1) := by rw [Nat.shiftLeft_add, mul_shiftLeft, units]
        _ = x.units * 10 ^ (j + 1) := by rw [Nat.shiftLeft_eq, Nat.mul_assoc, ← Nat.mul_pow]
    have hdigits : x.mantissa * 5 ^ (j + 1) ≠ 0 :=
      Nat.mul_ne_zero (Nat.ne_of_gt hm) (Nat.ne_of_gt (Nat.pow_pos (by decide)))
    rw [hexact, Decimal.toDouble?_eq_nearest?]
    · rw [Decimal.fraction_negSucc, hunits]
      exact nearest?_units x (Nat.pow_pos (by decide))
    · exact hdigits
    · omega
    · omega
  · -- The double is whole, and its decimal has no power of ten.
    have hexact : x.exact = ⟨x.negative, x.mantissa <<< (x.exponent - 1074), .ofNat 0⟩ := by
      rw [exact, if_neg he]
      rfl
    have hzero : Int.ofNat 0 = 0 := rfl
    have hexponent := x.exponent_le
    have hhigh := digitCount_shiftLeft_le (c := 75) x.mantissa_lt
      (show x.exponent - 1074 ≤ 13 * 75 by omega)
    have hunits : (x.mantissa <<< (x.exponent - 1074)) <<< 1074 = x.units := by
      rw [units, ← Nat.shiftLeft_add, Nat.sub_add_cancel (Nat.le_of_not_lt he)]
    have hdigits : x.mantissa <<< (x.exponent - 1074) ≠ 0 := by
      rw [Nat.shiftLeft_eq]
      exact Nat.mul_ne_zero (Nat.ne_of_gt hm) (Nat.ne_of_gt (Nat.two_pow_pos _))
    rw [hexact, Decimal.toDouble?_eq_nearest?]
    · rw [Decimal.fraction_ofNat, Nat.pow_zero, mul_shiftLeft, hunits]
      exact nearest?_units x Nat.one_pos
    · exact hdigits
    · omega
    · omega

/-! ## Shortest decimals -/

theorem onGrid?_toDouble? {tie : Tie} {x : Double} {place : Int} {d : Decimal}
    (h : x.onGrid? tie place = some d) : d.toDouble? = some x := by
  rw [onGrid?] at h
  generalize x.neighbours place = neighbours at h
  obtain ⟨⟨low, below⟩, high, above⟩ := neighbours
  simp only at h
  split at h
  · cases h
  · rename_i hlow hhigh
    obtain rfl := Option.some.inj h
    exact of_decide_eq_true hlow
  · rename_i hlow hhigh
    obtain rfl := Option.some.inj h
    exact of_decide_eq_true hhigh
  · rename_i hlow hhigh
    -- Both neighbours read back, so whichever is taken is right.
    have hboth : d = low ∨ d = high := by
      split at h
      · exact .inl (Option.some.inj h).symm
      · split at h
        · exact .inr (Option.some.inj h).symm
        · cases tie with
          | up => exact .inr (Option.some.inj h).symm
          | even =>
            simp only at h
            split at h
            · exact .inl (Option.some.inj h).symm
            · exact .inr (Option.some.inj h).symm
    rcases hboth with rfl | rfl
    · exact of_decide_eq_true hlow
    · exact of_decide_eq_true hhigh

theorem firstGrid?_toDouble? {tie : Tie} {x : Double} {leading : Int} {fuel count : Nat} {d : Decimal}
    (h : firstGrid? tie x leading fuel count = some d) : d.toDouble? = some x := by
  induction fuel generalizing count with
  | zero => cases h
  | succ fuel ih =>
    rw [firstGrid?] at h
    split at h
    · rename_i d' hgrid
      obtain rfl := Option.some.inj h
      exact onGrid?_toDouble? hgrid
    · exact ih h

/-- **Shortest decimals read back**, whichever of two equally near ones is taken. -/
theorem shortest_toDouble? (tie : Tie) (x : Double) : (x.shortest tie).toDouble? = some x := by
  rw [shortest]
  split
  · rename_i hx
    rw [eq_zero_of_isZero hx]
    rfl
  · rename_i hx
    rw [Decimal.toDouble?_trim]
    cases hgrid : firstGrid? tie x (leadingExponent x.units (1 <<< 1074)) 17 1 with
    | some d => exact firstGrid?_toDouble? hgrid
    | none => exact exact_toDouble? (Bool.eq_false_iff.mpr hx)

end Double

end ShapeSchema
