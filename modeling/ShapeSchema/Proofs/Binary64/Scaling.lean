import ShapeSchema.Proofs.Binary64.Decimal
import ShapeSchema.Proofs.Binary64.Nearest

/-!
# Products and quotients with powers of ten

A whole number of 53 bits is a double, and so is a power of ten up to the twenty-second. Their product
and their quotient are rounded, but nothing was rounded before: so they are the doubles nearest to the
decimals.
-/

namespace ShapeSchema

/-! ## Doubles that are not rounded -/

namespace Double

theorem map_nearest? (negative : Bool) (num den : Nat) :
    (nearest? false num den).map (fun x => { x with negative := negative }) =
      nearest? negative num den := by
  have hparts : ∀ m e, (ofParts? false m e).map (fun x => { x with negative := negative }) =
      ofParts? negative m e := by
    intro m e
    unfold ofParts?
    split <;> rfl
  simp only [nearest?]
  split
  · exact hparts _ _
  · exact hparts _ _

theorem nearest?_zero (negative : Bool) (den : Nat) :
    nearest? negative 0 den = some (zero negative) := by
  have hround : roundDiv 0 (den <<< 0) = 0 := by
    simp [roundDiv]
  have hshift : (0 / den).log2 - 52 = 0 := by
    rw [Nat.zero_div, Nat.log2_zero]
  simp only [nearest?, hshift, hround]
  rfl

theorem exists_shiftLeft (negative : Bool) {m e : Nat} (hm : m < mantissaBound) (he : e ≤ 2045) :
    ∃ x : Double, x.negative = negative ∧ x.units = m <<< e := by
  simp only [Nat.shiftLeft_eq]
  exact exists_units negative hm he

/-- A whole number of 53 bits. -/
theorem ofInt_exact {n : Nat} (hn : n < mantissaBound) :
    (ofInt n).negative = false ∧ (ofInt n).units = n <<< 1074 := by
  obtain ⟨x, hsign, hunits⟩ := exists_shiftLeft false hn (by decide : 1074 ≤ 2045)
  have hnearest : nearest? false (n <<< 1074) 1 = some x := by
    have hself := nearest?_units x Nat.one_pos
    rwa [hsign, hunits, Nat.mul_one] at hself
  have hofInt : nearest? false (n <<< 1074) 1 = some (ofInt n) := by
    have hlt : (n : Int).natAbs < 2 ^ 64 := Nat.lt_trans hn (by decide)
    have hnonneg : decide ((n : Int) < 0) = false := decide_eq_false (by omega)
    have hround := nearest?_ofInt hlt
    rwa [hnonneg, Int.natAbs_natCast] at hround
  obtain rfl := Option.some.inj (hnearest.symm.trans hofInt)
  exact ⟨hsign, hunits⟩

/-- A power of ten up to the twenty-second, which is a power of five of 52 bits times one of two. -/
theorem powerOfTen_exact {e : Nat} (he : e ≤ 22) : (powerOfTen e).negative = false ∧
    (powerOfTen e).isZero = false ∧ (powerOfTen e).units = 10 ^ e <<< 1074 := by
  have hall : ∀ e < 23, (powerOfTen e).negative = false ∧ (powerOfTen e).isZero = false ∧
      (powerOfTen e).units = 10 ^ e <<< 1074 := by
    decide +kernel
  exact hall e (Nat.lt_succ_of_le he)

theorem nearest?_product (negative : Bool) (m n k : Nat) :
    nearest? negative (m <<< k * n <<< k) (1 <<< k) = nearest? negative ((m * n) <<< k) 1 := by
  simp only [Nat.shiftLeft_eq]
  rw [Nat.mul_mul_mul_comm, ← Nat.mul_assoc]
  exact nearest?_mul (Nat.two_pow_pos k) negative _ 1

theorem nearest?_quotient (negative : Bool) (m n k : Nat) :
    nearest? negative (m <<< k) (n <<< k) = nearest? negative m n := by
  rw [Nat.shiftLeft_eq, Nat.shiftLeft_eq]
  exact nearest?_mul (Nat.two_pow_pos k) negative m n

end Double

/-! ## Decimals that are rounded once -/

namespace Decimal

theorem map_toDouble? (negative : Bool) (digits : Nat) (e : Int) :
    (Decimal.mk false digits e).toDouble?.map (fun x => { x with negative := negative }) =
      (Decimal.mk negative digits e).toDouble? := by
  unfold toDouble?
  simp only
  split
  · rfl
  · split
    · rfl
    · exact Double.map_nearest? negative _ _

theorem lt_pow_digitCount (n : Nat) : n < 10 ^ digitCount n := by
  obtain ⟨k, hk⟩ := Nat.exists_eq_succ_of_ne_zero (Nat.length_toDigits_pos (b := 10) (n := n)).ne'
  rw [digitCount, hk]
  exact digitCount_le_iff.mp (Nat.le_of_eq hk)

theorem digitCount_le_of_lt {n : Nat} (hn : n < mantissaBound) : digitCount n ≤ 16 :=
  digitCount_le_iff.mpr (Nat.lt_trans hn (by decide))

/-- A decimal of 53 bits and a small exponent is rounded once. -/
theorem toDouble?_of_short {negative : Bool} {n : Nat} {e : Int} (hn : n < mantissaBound)
    (hlow : -22 ≤ e) (hhigh : e ≤ 22) : (Decimal.mk negative n e).toDouble? =
      Double.nearest? negative (fraction ⟨negative, n, e⟩).1 (fraction ⟨negative, n, e⟩).2 := by
  by_cases h0 : n = 0
  · subst h0
    have hnum : (fraction ⟨negative, 0, e⟩).1 = 0 := by
      cases e with
      | ofNat k => rw [fraction_ofNat, Nat.zero_mul, Nat.zero_shiftLeft]
      | negSucc k => rw [fraction_negSucc, Nat.zero_shiftLeft]
    rw [hnum, Double.nearest?_zero]
    rfl
  · have hcount := digitCount_le_of_lt hn
    exact toDouble?_eq_nearest? h0 (by omega) (by omega)

/-- The product of two doubles that are not rounded is the decimal's double, -/
theorem mul?_powerOfTen {n k : Nat} (hn : n < mantissaBound) (hk : k ≤ 22) :
    (Double.ofInt n).mul? (.powerOfTen k) = (Decimal.mk false n (.ofNat k)).toDouble? := by
  obtain ⟨hsign, hunits⟩ := Double.ofInt_exact hn
  obtain ⟨hsign', -, hunits'⟩ := Double.powerOfTen_exact hk
  have hlow : -22 ≤ Int.ofNat k := Int.le_trans (by decide) (Int.natCast_nonneg k)
  have hhigh : Int.ofNat k ≤ 22 := Int.ofNat_le.mpr hk
  rw [toDouble?_of_short hn hlow hhigh, fraction_ofNat, Double.mul?, hsign,
    hsign', hunits, hunits']
  exact Double.nearest?_product false n (10 ^ k) 1074

/-- and so is their quotient. -/
theorem div?_powerOfTen {n k : Nat} (hn : n < mantissaBound) (hk : k + 1 ≤ 22) :
    (Double.ofInt n).div? (.powerOfTen (k + 1)) = (Decimal.mk false n (.negSucc k)).toDouble? := by
  obtain ⟨hsign, hunits⟩ := Double.ofInt_exact hn
  obtain ⟨hsign', hzero, hunits'⟩ := Double.powerOfTen_exact hk
  rw [toDouble?_of_short hn (by omega) (by omega), fraction_negSucc, Double.div?, hzero, hsign,
    hsign', hunits, hunits']
  exact Double.nearest?_quotient false (n <<< 1074) (10 ^ (k + 1)) 1074

end Decimal

end ShapeSchema
