import ShapeSchema.Proofs.Binary64.Scaling
import ShapeSchema.Proofs.Load.Reader

/-!
# Ways of reading floating point numbers

Reading the nearest double is inverse to printing one. Reading digits and scaling them is not, because
it rounds more than once. But where the digits have 53 bits and the power of ten is a small one, only
the product or the quotient is rounded, and then the nearest double is read. This restores the doubles
that have a short decimal.
-/

namespace ShapeSchema

/-! ## Scaling -/

namespace FloatReader

theorem scale_ofNat (x : Double) {k : Nat} (hk : k ≤ 308) :
    scale x (.ofNat k) = x.mul? (.powerOfTen k) := if_pos hk

theorem scale_negSucc (x : Double) {k : Nat} (hk : k < 308) :
    scale x (.negSucc k) = x.div? (.powerOfTen (k + 1)) := by
  show divide (k % 308 + 1) (k / 308) x = _
  rw [Nat.mod_eq_of_lt hk, Nat.div_eq_of_lt hk]
  rfl

/-- As long as neither factor has to be rounded, scaling gives the nearest double. -/
theorem scale_ofInt {n : Nat} {e : Int} (hn : n < mantissaBound) (hlow : -22 ≤ e) (hhigh : e ≤ 22) :
    scale (.ofInt n) e = (Decimal.mk false n e).toDouble? := by
  cases e with
  | ofNat k =>
    have hk : k ≤ 22 := Int.ofNat_le.mp hhigh
    rw [scale_ofNat _ (by omega), Decimal.mul?_powerOfTen hn hk]
  | negSucc k =>
    have hk : k + 1 ≤ 22 := by omega
    rw [scale_negSucc _ (by omega), Decimal.div?_powerOfTen hn hk]

theorem le_ofDigitChars (cs : List Char) (n : Nat) : n ≤ Nat.ofDigitChars 10 cs n := by
  induction cs generalizing n with
  | nil => exact Nat.le_refl n
  | cons c cs ih =>
    rw [Nat.ofDigitChars_cons]
    exact Nat.le_trans (by omega) (ih _)

/-- Digits that fit are all taken. -/
theorem takeDigits_eq {digits : List UInt8} {n : Nat}
    (h : Nat.ofDigitChars 10 (digits.map Char.ofUInt8) n < 2 ^ 64) :
    takeDigits n digits = (Nat.ofDigitChars 10 (digits.map Char.ofUInt8) n, []) := by
  induction digits generalizing n with
  | nil => rfl
  | cons b rest ih =>
    have hnext := le_ofDigitChars (rest.map Char.ofUInt8) (10 * n + (b.toNat - 0x30))
    have hfits : 10 * n + (b.toNat - 0x30) < 0x10000000000000000 := Nat.lt_of_le_of_lt hnext h
    rw [takeDigits]
    simp only [if_pos hfits]
    exact ih h

/-- **Short numbers are read exactly.** Up to 53 bits of digits and the twenty-second power of ten,
scaling gives the nearest double. -/
theorem scaled_eq_nearest {n : Numeral} (hdigits : n.decimal.digits < mantissaBound)
    (hlow : -22 ≤ n.decimal.exponent) (hhigh : n.decimal.exponent ≤ 22) : scaled n = nearest n := by
  have hsplit : n.decimal.digits =
      Nat.ofDigitChars 10 (n.fraction.map Char.ofUInt8) (NumberLiteral.ofDigits n.digits) := by
    rw [Numeral.decimal, NumberLiteral.ofDigits, List.map_append, Nat.ofDigitChars_append]
    rfl
  have hfits : n.decimal.digits < 2 ^ 64 := Nat.lt_trans hdigits (by decide)
  have hwhole : takeDigits 0 n.digits = (NumberLiteral.ofDigits n.digits, []) :=
    takeDigits_eq (Nat.lt_of_le_of_lt (hsplit ▸ le_ofDigitChars _ _) hfits)
  have hfraction : takeDigits (NumberLiteral.ofDigits n.digits) n.fraction =
      (n.decimal.digits, []) := by
    rw [hsplit] at hfits ⊢
    exact takeDigits_eq hfits
  have hexponent : n.exponent + ([] : List UInt8).length -
      (n.fraction.length - ([] : List UInt8).length : Nat) = n.decimal.exponent := by
    simp [Numeral.decimal]
  unfold scaled
  simp only [hwhole, hfraction, hexponent]
  rw [scale_ofInt hdigits hlow hhigh, Decimal.map_toDouble?]
  rfl

/-- The two ways of reading differ: this number is short, but its power of ten is rounded. -/
example : scaled ⟨false, [0x31], [], -23⟩ ≠ nearest ⟨false, [0x31], [], -23⟩ := by decide +kernel

/-! ## Restoring -/

/-- The text of a double is a number to which the double is nearest. -/
theorem nearest_invertsPrinter : nearest.InvertsPrinter := by
  intro x
  obtain ⟨n, hwrites, hn⟩ := exists_numeral x
  exact (hn nearest).1.mpr (hwrites.toDouble?.trans (x.shortest_toDouble? .even))

/-- Scaling restores the doubles with at most fifteen digits, at most fourteen of them before the point
and twenty-two behind it. -/
theorem scaled_restores {x : Double} (hcount : digitCount (x.shortest .even).digits ≤ 15)
    (hlow : -22 ≤ (x.shortest .even).exponent)
    (hhigh : (x.shortest .even).exponent + digitCount (x.shortest .even).digits ≤ 14) :
    scaled.Restores x := by
  obtain ⟨n, ⟨zeros, hdecimal, hzeros⟩, hn⟩ := exists_numeral x
  have hvalue : nearest n = some x := (hn nearest).1.mp (nearest_invertsPrinter x)
  have hpos : 0 < digitCount (x.shortest .even).digits := Nat.length_toDigits_pos
  have hdigits : n.decimal.digits < 10 ^ 15 := by
    rw [hdecimal]
    calc (x.shortest .even).digits * 10 ^ zeros
        < 10 ^ digitCount (x.shortest .even).digits * 10 ^ zeros :=
          Nat.mul_lt_mul_of_pos_right (Decimal.lt_pow_digitCount _) (Nat.pow_pos (by decide))
      _ = 10 ^ (digitCount (x.shortest .even).digits + zeros) := (Nat.pow_add ..).symm
      _ ≤ 10 ^ 15 := Nat.pow_le_pow_right (by decide) (by omega)
  have hexponent : -22 ≤ n.decimal.exponent ∧ n.decimal.exponent ≤ 22 := by
    rw [hdecimal]
    constructor <;> simp only <;> omega
  have hshort : scaled n = nearest n :=
    scaled_eq_nearest (Nat.lt_trans hdigits (by decide)) hexponent.1 hexponent.2
  exact (hn scaled).1.mpr (hshort.trans hvalue)

end FloatReader

end ShapeSchema
