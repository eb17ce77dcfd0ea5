import ShapeSchema.Json.Printer
import ShapeSchema.Proofs.Binary64.Decimal
import ShapeSchema.Proofs.Load.Tree
import ShapeSchema.Proofs.Text.Utf8

/-!
# Reading numbers back

The text of a number, whichever way it is laid out, is scanned as the number. What follows it must
not go on with it: behind a value there is nothing, a comma, or a closing bracket.
-/

namespace ShapeSchema

/-- What may stand behind a value. -/
def IsTail : List Char → Prop
  | [] => True
  | c :: _ => c = ',' ∨ c = ']' ∨ c = '\x7d'

namespace NumberLiteral

/-! ## Digits -/

/-- The byte of a digit is a digit, and stands for it. -/
theorem digit_byte {c : Char} (hc : c.isDigit = true) :
    String.utf8EncodeChar c = [UInt8.ofNat c.toNat] ∧ isDigit (UInt8.ofNat c.toNat) = true ∧
      Char.ofUInt8 (UInt8.ofNat c.toNat) = c := by
  have hdecide : ∀ n < 58, 48 ≤ n →
      String.utf8EncodeChar (Char.ofNat n) = [UInt8.ofNat (Char.ofNat n).toNat] ∧
        isDigit (UInt8.ofNat (Char.ofNat n).toNat) = true ∧
        Char.ofUInt8 (UInt8.ofNat (Char.ofNat n).toNat) = Char.ofNat n := by
    decide
  have hrange : 48 ≤ c.toNat ∧ c.toNat ≤ 57 := Char.isDigit_iff_toNat.mp hc
  have h := hdecide c.toNat (Nat.lt_succ_of_le hrange.2) hrange.1
  rwa [Char.ofNat_toNat] at h

/-- A row of digits. -/
def Digits (cs : List Char) : Prop := ∀ c ∈ cs, c.isDigit = true

theorem digits_toDigits (n : Nat) : Digits (Nat.toDigits 10 n) := fun _ hc =>
  Nat.isDigit_of_mem_toDigits (by decide) (by decide) hc

theorem isDigit_of_mem_utf8 {cs : List Char} (h : Digits cs) {b : UInt8} (hb : b ∈ utf8 cs) :
    isDigit b = true := by
  obtain ⟨c, hc, hb⟩ := List.mem_flatMap.mp hb
  obtain ⟨hbytes, hdigit, -⟩ := digit_byte (h c hc)
  rw [hbytes, List.mem_singleton] at hb
  exact hb ▸ hdigit

theorem ofDigits_utf8 {cs : List Char} (h : Digits cs) :
    ofDigits (utf8 cs) = Nat.ofDigitChars 10 cs 0 := by
  have hmap : (utf8 cs).map Char.ofUInt8 = cs := by
    induction cs with
    | nil => rfl
    | cons c cs ih =>
      obtain ⟨hbytes, -, hchar⟩ := digit_byte (h c (by simp))
      rw [utf8_cons, hbytes, List.singleton_append, List.map_cons, hchar,
        ih fun d hd => h d (by simp [hd])]
  rw [ofDigits, hmap]

theorem length_utf8 {cs : List Char} (h : Digits cs) : (utf8 cs).length = cs.length := by
  induction cs with
  | nil => rfl
  | cons c cs ih =>
    obtain ⟨hbytes, -, -⟩ := digit_byte (h c (by simp))
    rw [utf8_cons, hbytes, List.singleton_append, List.length_cons, List.length_cons,
      ih fun d hd => h d (by simp [hd])]

/-- No digit comes next. -/
def NoDigit (rest : List UInt8) : Prop := ∀ b after, rest = b :: after → isDigit b = false

theorem takeWhile_digits {cs : List Char} (h : Digits cs) {rest : List UInt8} (hrest : NoDigit rest) :
    (utf8 cs ++ rest).takeWhile isDigit = utf8 cs := by
  rw [List.takeWhile_append_of_pos fun b hb => isDigit_of_mem_utf8 h hb]
  cases rest with
  | nil => simp
  | cons b after => simp [hrest b after rfl]

theorem dropWhile_digits {cs : List Char} (h : Digits cs) {rest : List UInt8} (hrest : NoDigit rest) :
    (utf8 cs ++ rest).dropWhile isDigit = rest := by
  rw [List.dropWhile_append_of_pos fun b hb => isDigit_of_mem_utf8 h hb]
  cases rest with
  | nil => rfl
  | cons b after => simp [hrest b after rfl]

/-! ## Scanning -/

variable {reader : FloatReader}

/-- A row of digits before the point: there is one, and a zero at the front only alone. -/
structure Whole (cs : List Char) : Prop where
  digits : Digits cs
  ne_nil : cs ≠ []
  zero : ∀ rest, cs = '0' :: rest → rest = []

/-- What `scan` does behind the sign. -/
def scanMagnitude (reader : FloatReader) (negative : Bool) (bytes : List UInt8) : Source × List UInt8 :=
  let digits := bytes.takeWhile isDigit
  let rest := bytes.dropWhile isDigit
  match digits with
  | [] => broken rest
  | 0x30 :: _ :: _ => (.broken .other .invalidNumber .invalidNumber, [])
  | _ =>
    match rest with
    | 0x2E :: rest =>
      let fraction := rest.takeWhile isDigit
      if fraction.isEmpty then broken rest
      else scanTail reader negative digits (some fraction) (rest.dropWhile isDigit)
    | _ => scanTail reader negative digits none rest

theorem scan_minus (rest : List UInt8) :
    scan reader (0x2D :: rest) = scanMagnitude reader true rest := rfl

theorem scan_of_ne_minus {b : UInt8} (hb : b ≠ 0x2D) (rest : List UInt8) :
    scan reader (b :: rest) = scanMagnitude reader false (b :: rest) := by
  unfold scan
  split
  rename_i negative after hsign
  split at hsign
  · rename_i heq
    exact absurd (List.cons.inj heq).1 hb
  · obtain ⟨rfl, rfl⟩ := Prod.mk.inj hsign
    rfl

theorem scanMagnitude_broken {b : UInt8} (hb : isDigit b = false) (negative : Bool)
    (rest : List UInt8) : scanMagnitude reader negative (b :: rest) = broken (b :: rest) := by
  unfold scanMagnitude
  simp only [List.takeWhile_cons, List.dropWhile_cons, hb]
  rfl

section

variable {bytes rest : List UInt8} {r : Except Fault Number}

/-- A number without sign is read from its first digit on. -/
theorem scan_of_scanMagnitude (h : scanMagnitude reader false bytes = (.number r, rest)) :
    scan reader bytes = (.number r, rest) := by
  match bytes, h with
  | [], h => cases h
  | b :: after, h =>
    have hb : b ≠ 0x2D := by
      rintro rfl
      cases h
    rw [scan_of_ne_minus hb, h]

/-- What is scanned as a number starts with a sign or a digit. -/
theorem starts_of_scan (h : scan reader bytes = (.number r, rest)) :
    ∃ b after, bytes = b :: after ∧ (b = 0x2D ∨ isDigit b = true) := by
  match bytes, h with
  | [], h => cases h
  | b :: after, h =>
    refine ⟨b, after, rfl, ?_⟩
    by_cases hminus : b = 0x2D
    · exact .inl hminus
    · rw [scan_of_ne_minus hminus] at h
      cases hdigit : isDigit b with
      | true => exact .inr rfl
      | false =>
        rw [scanMagnitude_broken hdigit] at h
        cases h

end

theorem isDigit_cases {b : UInt8} (hb : isDigit b = true) : ∃ n < 10, b = UInt8.ofNat (48 + n) := by
  obtain ⟨hlow, hhigh⟩ : 0x30 ≤ b ∧ b ≤ 0x39 := by
    simpa [isDigit] using hb
  have hlow' : 48 ≤ b.toNat := UInt8.le_iff_toNat_le.mp hlow
  have hhigh' : b.toNat ≤ 57 := UInt8.le_iff_toNat_le.mp hhigh
  refine ⟨b.toNat - 48, by omega, ?_⟩
  rw [Nat.add_sub_cancel' hlow', UInt8.ofNat_toNat]

theorem Whole.utf8_ne_zero {cs : List Char} (h : Whole cs) (b : UInt8) (bs : List UInt8) :
    utf8 cs ≠ 0x30 :: b :: bs := by
  intro hbytes
  match cs, h with
  | [], h => exact h.ne_nil rfl
  | c :: cs, h =>
    obtain ⟨hbyte, -, hchar⟩ := digit_byte (h.digits c (by simp))
    rw [utf8_cons, hbyte, List.singleton_append, List.cons.injEq] at hbytes
    obtain ⟨hc, htail⟩ := hbytes
    rw [hc] at hchar
    obtain rfl : c = '0' := hchar.symm
    obtain rfl := h.zero cs rfl
    cases htail

theorem scanMagnitude_plain {negative : Bool} {cs : List Char} {rest : List UInt8}
    (hcs : Whole cs) (hrest : NoDigit rest) (hpoint : ∀ after, rest ≠ 0x2E :: after) :
    scanMagnitude reader negative (utf8 cs ++ rest) = scanTail reader negative (utf8 cs) none rest := by
  unfold scanMagnitude
  simp only [takeWhile_digits hcs.digits hrest, dropWhile_digits hcs.digits hrest]
  split
  · rename_i h
    exact absurd h (utf8_ne_nil hcs.ne_nil)
  · rename_i h
    exact absurd h (hcs.utf8_ne_zero _ _)
  · rfl

theorem scanMagnitude_point {negative : Bool} {cs fs : List Char} {rest : List UInt8}
    (hcs : Whole cs) (hfs : Digits fs) (hne : fs ≠ []) (hrest : NoDigit rest) :
    scanMagnitude reader negative (utf8 cs ++ 0x2E :: (utf8 fs ++ rest)) =
      scanTail reader negative (utf8 cs) (some (utf8 fs)) rest := by
  have hpoint : NoDigit (0x2E :: (utf8 fs ++ rest)) := by
    rintro b after ⟨⟩
    rfl
  have hfraction : (utf8 fs).isEmpty = false := List.isEmpty_eq_false_iff.mpr (utf8_ne_nil hne)
  unfold scanMagnitude
  simp only [takeWhile_digits hcs.digits hpoint, dropWhile_digits hcs.digits hpoint,
    takeWhile_digits hfs hrest, dropWhile_digits hfs hrest, hfraction]
  split
  · rename_i h
    exact absurd h (utf8_ne_nil hcs.ne_nil)
  · rename_i h
    exact absurd h (hcs.utf8_ne_zero _ _)
  · rfl

/-! ## Behind the digits -/

section

variable {behind : List Char}

/-- The first byte of what stands behind a value, if there is one. -/
theorem utf8_tail (h : IsTail behind) : utf8 behind = [] ∨
    ∃ b after, utf8 behind = b :: after ∧ (b = 0x2C ∨ b = 0x5D ∨ b = 0x7D) := by
  match behind, h with
  | [], _ => exact .inl rfl
  | c :: rest, h =>
    rcases h with rfl | rfl | rfl
    · exact .inr ⟨_, _, rfl, .inl rfl⟩
    · exact .inr ⟨_, _, rfl, .inr (.inl rfl)⟩
    · exact .inr ⟨_, _, rfl, .inr (.inr rfl)⟩

theorem noDigit_tail (h : IsTail behind) : NoDigit (utf8 behind) := by
  intro b after hb
  rcases utf8_tail h with hnil | ⟨b', after', hcons, hcases⟩
  · rw [hnil] at hb
    cases hb
  · obtain ⟨rfl, rfl⟩ := List.cons.inj (hcons.symm.trans hb)
    rcases hcases with rfl | rfl | rfl <;> rfl

/-- A number without exponent ends before what stands behind it. -/
theorem scanTail_tail {negative : Bool} {digits : List UInt8} {fraction : Option (List UInt8)}
    (h : IsTail behind) : scanTail reader negative digits fraction (utf8 behind) =
      (scanTail.plainValue reader negative digits fraction, utf8 behind) := by
  rcases utf8_tail h with hnil | ⟨b, after, hcons, hcases⟩
  · rw [hnil]
    rfl
  · rw [hcons]
    rcases hcases with rfl | rfl | rfl <;> rfl

/-- The sign of a power of ten. -/
def signByte (minus : Bool) : UInt8 := if minus then 0x2D else 0x2B

/-- A number with a power of ten behind its letter. -/
theorem scanExponent_tail {negative minus : Bool} {digits fraction : List UInt8} {ps : List Char}
    (hps : Digits ps) (hne : ps ≠ []) (h : IsTail behind) :
    scanExponent reader negative digits fraction (signByte minus :: (utf8 ps ++ utf8 behind)) =
      (.number (double reader ⟨negative, digits, fraction,
        if minus then -(ofDigits (utf8 ps) : Int) else ofDigits (utf8 ps)⟩), utf8 behind) := by
  have hsign : splitSign (signByte minus :: (utf8 ps ++ utf8 behind)) =
      (minus, utf8 ps ++ utf8 behind) := by
    cases minus <;> rfl
  have hpower : (utf8 ps).isEmpty = false := List.isEmpty_eq_false_iff.mpr (utf8_ne_nil hne)
  have hrest := noDigit_tail h
  unfold scanExponent
  simp only [hsign, takeWhile_digits hps hrest, dropWhile_digits hps hrest, hpower]
  rfl

/-! ## Whole numbers -/

theorem eq_zero_of_toDigits {n : Nat} {rest : List Char} (h : Nat.toDigits 10 n = '0' :: rest) :
    n = 0 := by
  induction n using Nat.strongRecOn generalizing rest with
  | _ n ih =>
    by_cases hn : n < 10
    · rw [Nat.toDigits_of_lt_base hn] at h
      exact Nat.digitChar_eq_zero.mp (List.cons.inj h).1
    · rw [Nat.toDigits_of_base_le (by decide) (Nat.le_of_not_lt hn)] at h
      cases hdigits : Nat.toDigits 10 (n / 10) with
      | nil => exact absurd hdigits Nat.toDigits_ne_nil
      | cons c cs =>
        rw [hdigits, List.cons_append] at h
        obtain rfl := (List.cons.inj h).1
        have hzero := ih (n / 10) (by omega) hdigits
        omega

theorem whole_toDigits (n : Nat) : Whole (Nat.toDigits 10 n) where
  digits := digits_toDigits n
  ne_nil := Nat.toDigits_ne_nil
  zero rest h := by
    obtain rfl := eq_zero_of_toDigits h
    rw [Nat.toDigits_zero] at h
    exact (List.cons.inj h).2.symm

theorem ofDigits_toDigits (n : Nat) : ofDigits (utf8 (Nat.toDigits 10 n)) = n := by
  rw [ofDigits_utf8 (digits_toDigits n), Nat.ofDigitChars_ten_toDigits]

theorem scanMagnitude_toDigits (negative : Bool) (n : Nat) (h : IsTail behind) :
    scanMagnitude reader negative (utf8 (Nat.toDigits 10 n) ++ utf8 behind) =
      (.number (whole reader negative (utf8 (Nat.toDigits 10 n))), utf8 behind) := by
  have hpoint : ∀ after, utf8 behind ≠ 0x2E :: after := by
    intro after hbytes
    rcases utf8_tail h with hnil | ⟨b, _, hcons, hcases⟩
    · rw [hnil] at hbytes
      cases hbytes
    · obtain ⟨rfl, -⟩ := List.cons.inj (hcons.symm.trans hbytes)
      revert hcases
      decide
  rw [scanMagnitude_plain (whole_toDigits n) (noDigit_tail h) hpoint, scanTail_tail h]
  rfl

/-- A whole number in range has the value of its digits, unless it is minus zero. -/
theorem whole_eq_ok {negative : Bool} {n : Nat} {i : Int} (hvalue : (if negative then -(n : Int) else n) = i)
    (hzero : ¬(negative = true ∧ i = 0)) (hi : IsInt64 i ∨ IsUInt64 i) :
    whole reader negative (utf8 (Nat.toDigits 10 n)) = .ok (.int i) := by
  unfold whole
  simp only [ofDigits_toDigits]
  rw [hvalue, if_neg (not_or.mpr ⟨hzero, fun hnot => hnot hi⟩)]

/-- **Reading back.** The text of a whole number of 64 bits. -/
theorem scan_int {i : Int} (hi : IsInt64 i ∨ IsUInt64 i) (h : IsTail behind) :
    scan reader (utf8 (Number.intChars i ++ behind)) = (.number (.ok (.int i)), utf8 behind) := by
  rw [utf8_append]
  cases i with
  | ofNat n =>
    have hwhole : whole reader false (utf8 (Nat.toDigits 10 n)) = .ok (.int (.ofNat n)) :=
      whole_eq_ok rfl (by simp) hi
    refine scan_of_scanMagnitude ?_
    rw [Number.intChars, scanMagnitude_toDigits false n h, hwhole]
  | negSucc n =>
    have hwhole : whole reader true (utf8 (Nat.toDigits 10 (n + 1))) = .ok (.int (.negSucc n)) :=
      whole_eq_ok rfl (by simp) hi
    show scan reader (0x2D :: (utf8 (Nat.toDigits 10 (n + 1)) ++ utf8 behind)) = _
    rw [scan_minus, scanMagnitude_toDigits true (n + 1) h, hwhole]

/-! ## Floating point numbers -/

/-- The numeral is the decimal, digit for digit or with zeros up to the first one behind the point. -/
def Writes (n : Numeral) (d : Decimal) : Prop :=
  ∃ zeros : Nat, n.decimal = ⟨d.negative, d.digits * 10 ^ zeros, d.exponent - zeros⟩ ∧
    (zeros = 0 ∨ (zeros : Int) = d.exponent + 1)

theorem Writes.of_decimal {n : Numeral} {d : Decimal} (h : n.decimal = d) : Writes n d :=
  ⟨0, by simp [h], .inl rfl⟩

theorem Writes.toDouble? {n : Numeral} {d : Decimal} (h : Writes n d) :
    n.decimal.toDouble? = d.toDouble? := by
  obtain ⟨zeros, hdecimal, -⟩ := h
  rw [hdecimal, Decimal.toDouble?_mul_pow]

/-- Behind its sign, and whatever follows it, the text is scanned as this numeral. -/
def ScansAs (chars : List Char) (n : Numeral) : Prop :=
  ∀ (reader : FloatReader) (behind : List Char), IsTail behind →
    scanMagnitude reader n.negative (utf8 chars ++ utf8 behind) =
      (.number (double reader n), utf8 behind)

variable {negative : Bool}

/-- A number with a fraction. -/
theorem scansAs_fraction {cs fs : List Char} (hcs : Whole cs) (hfs : Digits fs) (hne : fs ≠ []) :
    ScansAs (cs ++ '.' :: fs) ⟨negative, utf8 cs, utf8 fs, 0⟩ := by
  intro reader behind h
  have hbytes : utf8 (cs ++ '.' :: fs) ++ utf8 behind =
      utf8 cs ++ 0x2E :: (utf8 fs ++ utf8 behind) := by
    rw [utf8_append, List.append_assoc]
    rfl
  rw [hbytes, scanMagnitude_point hcs hfs hne (noDigit_tail h), scanTail_tail h]
  rfl

/-- The fraction as it is written behind the digits before the point, if there is one. -/
def pointChars (fs : List Char) : List Char :=
  match fs with
  | [] => []
  | rest => '.' :: rest

/-- A number with a power of ten, with or without a fraction. -/
theorem scansAs_power {minus : Bool} {cs fs ps : List Char} (hcs : Whole cs) (hfs : Digits fs)
    (hps : Digits ps) (hne : ps ≠ []) :
    ScansAs (cs ++ pointChars fs ++ 'e' :: (if minus then '-' else '+') :: ps)
      ⟨negative, utf8 cs, utf8 fs,
        if minus then -(ofDigits (utf8 ps) : Int) else ofDigits (utf8 ps)⟩ := by
  intro reader behind h
  have hpower : utf8 ('e' :: (if minus then '-' else '+') :: ps) ++ utf8 behind =
      0x65 :: signByte minus :: (utf8 ps ++ utf8 behind) := by
    cases minus <;> rfl
  have hletter : NoDigit (0x65 :: signByte minus :: (utf8 ps ++ utf8 behind)) := by
    rintro b after ⟨⟩
    rfl
  rw [utf8_append, List.append_assoc, hpower]
  cases fs with
  | nil =>
    rw [pointChars, List.append_nil, scanMagnitude_plain hcs hletter (by simp)]
    exact scanExponent_tail hps hne h
  | cons c rest =>
    have hbytes : utf8 (cs ++ pointChars (c :: rest)) = utf8 cs ++ 0x2E :: utf8 (c :: rest) := by
      rw [utf8_append]
      rfl
    rw [hbytes, List.append_assoc, List.cons_append,
      scanMagnitude_point hcs hfs (List.cons_ne_nil _ _) hletter]
    exact scanExponent_tail hps hne h

theorem decimal_utf8 {cs fs : List Char} (hcs : Digits cs) (hfs : Digits fs) (e : Int) :
    Numeral.decimal ⟨negative, utf8 cs, utf8 fs, e⟩ =
      ⟨negative, Nat.ofDigitChars 10 (cs ++ fs) 0, e - fs.length⟩ := by
  rw [Numeral.decimal, ← utf8_append, ofDigits_utf8 (List.forall_mem_append.mpr ⟨hcs, hfs⟩),
    length_utf8 hfs]

theorem ofDigitChars_zeros (k init : Nat) :
    Nat.ofDigitChars 10 (List.replicate k '0') init = 10 ^ k * init :=
  Nat.ofDigitChars_replicate_zero

theorem digits_zeros (k : Nat) : Digits (List.replicate k '0') := by
  intro c hc
  obtain rfl := List.eq_of_mem_replicate hc
  rfl

/-- Zeros behind a row of digits leave it one, if there are none behind a zero. -/
theorem whole_append_zeros {n k : Nat} (hzero : n = 0 → k = 0) :
    Whole (Nat.toDigits 10 n ++ List.replicate k '0') where
  digits := List.forall_mem_append.mpr ⟨digits_toDigits n, digits_zeros k⟩
  ne_nil := List.append_ne_nil_of_left_ne_nil Nat.toDigits_ne_nil _
  zero rest h := by
    cases hdigits : Nat.toDigits 10 n with
    | nil => exact absurd hdigits Nat.toDigits_ne_nil
    | cons c cs =>
      rw [hdigits, List.cons_append] at h
      obtain ⟨rfl, rfl⟩ := List.cons.inj h
      obtain rfl := (whole_toDigits n).zero cs hdigits
      obtain rfl := hzero (eq_zero_of_toDigits hdigits)
      rfl

/-- So do digits that are taken from the front of it. -/
theorem whole_take {n first : Nat} (hn : n ≠ 0) (hfirst : 0 < first) :
    Whole ((Nat.toDigits 10 n).take first) where
  digits c hc := digits_toDigits n c (List.mem_of_mem_take hc)
  ne_nil h := by
    rcases List.take_eq_nil_iff.mp h with h | h
    · omega
    · exact Nat.toDigits_ne_nil h
  zero rest h := by
    have hdigits := List.take_append_drop first (Nat.toDigits 10 n)
    rw [h, List.cons_append] at hdigits
    exact absurd (eq_zero_of_toDigits hdigits.symm) hn

/-- The text is scanned as a numeral of the decimal that has no power of ten. -/
def Positional (chars : List Char) (d : Decimal) : Prop :=
  ∃ digits fraction, ScansAs chars ⟨d.negative, digits, fraction, 0⟩ ∧
    Writes ⟨d.negative, digits, fraction, 0⟩ d

/-- The zeros of a whole number, and one more as its fraction. -/
theorem positional_zeros {n k : Nat} (hzero : n = 0 → k = 0) :
    Positional (Nat.toDigits 10 n ++ List.replicate k '0' ++ ['.', '0']) ⟨negative, n, .ofNat k⟩ := by
  have hwhole := whole_append_zeros hzero
  have hfraction : Digits ['0'] := digits_zeros 1
  have hvalue : Nat.ofDigitChars 10 (Nat.toDigits 10 n ++ List.replicate k '0' ++ ['0']) 0 =
      n * 10 ^ (k + 1) := by
    rw [List.append_assoc, ← List.replicate_succ', Nat.ofDigitChars_append,
      Nat.ofDigitChars_ten_toDigits, ofDigitChars_zeros, Nat.mul_comm]
  have hone : (0 : Int) - (['0'].length : Nat) = Int.ofNat k - (k + 1 : Nat) := by
    show (0 : Int) - 1 = (k : Int) - (k + 1 : Nat)
    omega
  refine ⟨_, _, scansAs_fraction hwhole hfraction (by simp), k + 1, ?_, .inr rfl⟩
  rw [decimal_utf8 hwhole.digits hfraction, hvalue, hone]

/-- The point among the digits, with at least one on each side. -/
theorem positional_inside {n first j : Nat} (hn : n ≠ 0) (hfirst : 0 < first)
    (hlength : first + (j + 1) = (Nat.toDigits 10 n).length) :
    Positional ((Nat.toDigits 10 n).take first ++ '.' :: (Nat.toDigits 10 n).drop first)
      ⟨negative, n, .negSucc j⟩ := by
  have hwhole : Whole ((Nat.toDigits 10 n).take first) := whole_take hn hfirst
  have hfraction : Digits ((Nat.toDigits 10 n).drop first) := fun c hc =>
    digits_toDigits n c (List.mem_of_mem_drop hc)
  have hbehind : ((Nat.toDigits 10 n).drop first).length = j + 1 := by
    rw [List.length_drop]
    omega
  have hne : (Nat.toDigits 10 n).drop first ≠ [] := List.ne_nil_of_length_eq_add_one hbehind
  refine ⟨_, _, scansAs_fraction hwhole hfraction hne, .of_decimal ?_⟩
  rw [decimal_utf8 hwhole.digits hfraction, List.take_append_drop, Nat.ofDigitChars_ten_toDigits,
    hbehind]
  rfl

/-- The point in front of all digits, with zeros in between. -/
theorem positional_front {n zeros j : Nat} (hlength : zeros + (Nat.toDigits 10 n).length = j + 1) :
    Positional ('0' :: '.' :: (List.replicate zeros '0' ++ Nat.toDigits 10 n))
      ⟨negative, n, .negSucc j⟩ := by
  have hwhole : Whole ['0'] := ⟨digits_zeros 1, by simp, by rintro rest ⟨⟩; rfl⟩
  have hfraction : Digits (List.replicate zeros '0' ++ Nat.toDigits 10 n) :=
    List.forall_mem_append.mpr ⟨digits_zeros zeros, digits_toDigits n⟩
  have hvalue : Nat.ofDigitChars 10 (['0'] ++ (List.replicate zeros '0' ++ Nat.toDigits 10 n)) 0 =
      n := by
    rw [Nat.ofDigitChars_append, Nat.ofDigitChars_append, ofDigitChars_zeros]
    exact Nat.ofDigitChars_ten_toDigits
  have hbehind : (List.replicate zeros '0' ++ Nat.toDigits 10 n).length = j + 1 := by
    rw [List.length_append, List.length_replicate, hlength]
  refine ⟨_, _, scansAs_fraction hwhole hfraction (by simp), .of_decimal ?_⟩
  rw [decimal_utf8 hwhole.digits hfraction, hvalue, hbehind]
  rfl

/-- A number in positional notation. -/
theorem positional_place {n : Nat} {e : Int} (hzero : n = 0 → e = 0) :
    Positional (Layout.place true (Nat.toDigits 10 n) e) ⟨negative, n, e⟩ := by
  cases e with
  | ofNat k => exact positional_zeros fun hn => Int.ofNat.inj (hzero hn)
  | negSucc j =>
    have hn : n ≠ 0 := fun hn => nomatch hzero hn
    by_cases hlt : j + 1 < (Nat.toDigits 10 n).length
    · have hplace : Layout.place true (Nat.toDigits 10 n) (.negSucc j) =
          (Nat.toDigits 10 n).take ((Nat.toDigits 10 n).length - (j + 1)) ++
            '.' :: (Nat.toDigits 10 n).drop ((Nat.toDigits 10 n).length - (j + 1)) :=
        if_pos hlt
      rw [hplace]
      exact positional_inside hn (by omega) (by omega)
    · have hplace : Layout.place true (Nat.toDigits 10 n) (.negSucc j) =
          '0' :: '.' :: (List.replicate (j + 1 - (Nat.toDigits 10 n).length) '0' ++
            Nat.toDigits 10 n) :=
        if_neg hlt
      rw [hplace]
      exact positional_front (by omega)

/-- A number in scientific notation. -/
theorem scansAs_scientific (n : Nat) (e : Int) : ∃ digits fraction power,
    ScansAs (Layout.scientific (Nat.toDigits 10 n) (e + (Nat.toDigits 10 n).length - 1))
      ⟨negative, digits, fraction, power⟩ ∧
    Writes ⟨negative, digits, fraction, power⟩ ⟨negative, n, e⟩ := by
  generalize hleading : e + (Nat.toDigits 10 n).length - 1 = leading
  have hchars : Layout.scientific (Nat.toDigits 10 n) leading =
      (Nat.toDigits 10 n).take 1 ++ pointChars ((Nat.toDigits 10 n).drop 1) ++
        'e' :: (if decide (leading < 0) then '-' else '+') :: Nat.toDigits 10 leading.natAbs := by
    unfold Layout.scientific
    cases (Nat.toDigits 10 n).drop 1 <;> simp [pointChars]
  have hwhole : Whole ((Nat.toDigits 10 n).take 1) := by
    refine ⟨fun c hc => digits_toDigits n c (List.mem_of_mem_take hc), ?_, fun rest hrest => ?_⟩
    · intro hnil
      exact (List.take_eq_nil_iff.mp hnil).elim (by decide) Nat.toDigits_ne_nil
    · have hlength := List.length_take_le 1 (Nat.toDigits 10 n)
      rw [hrest, List.length_cons] at hlength
      exact List.length_eq_zero_iff.mp (by omega)
  have hfraction : Digits ((Nat.toDigits 10 n).drop 1) := fun c hc =>
    digits_toDigits n c (List.mem_of_mem_drop hc)
  have hexponent : (if decide (leading < 0) then
      -(ofDigits (utf8 (Nat.toDigits 10 leading.natAbs)) : Int)
      else ofDigits (utf8 (Nat.toDigits 10 leading.natAbs))) -
        ((Nat.toDigits 10 n).drop 1).length = e := by
    have hpos : 0 < (Nat.toDigits 10 n).length := Nat.length_toDigits_pos
    rw [ofDigits_toDigits, List.length_drop]
    split
    · rename_i hneg
      have hlt : leading < 0 := of_decide_eq_true hneg
      omega
    · rename_i hneg
      have hle : ¬leading < 0 := fun hlt => hneg (decide_eq_true hlt)
      omega
  rw [hchars]
  refine ⟨_, _, _, scansAs_power hwhole hfraction (digits_toDigits _) Nat.toDigits_ne_nil,
    .of_decimal ?_⟩
  rw [decimal_utf8 hwhole.digits hfraction, List.take_append_drop, Nat.ofDigitChars_ten_toDigits,
    hexponent]

variable {x : Double}

/-- A shortest decimal without a value has no power of ten either. -/
theorem shortest_exponent {tie : Tie} (hzero : (x.shortest tie).digits = 0) :
    (x.shortest tie).exponent = 0 := by
  have hread := x.shortest_toDouble? tie
  rw [Decimal.toDouble?, if_pos (.inl hzero)] at hread
  have hx : x.isZero = true := by
    rw [← Option.some.inj hread]
    rfl
  rw [Double.shortest, if_pos hx]

/-- The text of a double is a sign, if it has one, and its shortest decimal in one of the two
notations. -/
theorem scansAs_write (x : Double) : ∃ magnitude,
    Layout.json.write x = (if x.negative then '-' :: magnitude else magnitude) ∧
      ∃ digits fraction power, ScansAs magnitude ⟨x.negative, digits, fraction, power⟩ ∧
        Writes ⟨x.negative, digits, fraction, power⟩ (x.shortest .even) := by
  have hdecimal : x.shortest .even =
      ⟨x.negative, (x.shortest .even).digits, (x.shortest .even).exponent⟩ := by
    rw [Decimal.negative_of_toDouble? (x.shortest_toDouble? .even)]
  rw [Layout.write]
  refine ⟨_, rfl, ?_⟩
  show ∃ _ _ _, ScansAs (if -5 ≤ _ ∧ _ < 16 then _ else _) _ ∧ _
  rw [hdecimal]
  split
  · obtain ⟨ds, fs, hscan⟩ := positional_place shortest_exponent
    exact ⟨ds, fs, 0, hscan⟩
  · exact scansAs_scientific _ _

/-- The text of a floating point number is scanned as a numeral of its shortest decimal, whatever
follows it. -/
theorem scan_write (x : Double) : ∃ n, Writes n (x.shortest .even) ∧
    ∀ (reader : FloatReader) (behind : List Char), IsTail behind →
      scan reader (utf8 (Layout.json.write x ++ behind)) =
        (.number (double reader n), utf8 behind) := by
  obtain ⟨magnitude, hwrite, ds, fs, p, hscan, hwrites⟩ := scansAs_write x
  refine ⟨_, hwrites, fun reader behind h => ?_⟩
  have hmagnitude := hscan reader behind h
  rw [utf8_append, hwrite]
  cases hsign : x.negative with
  | false =>
    rw [hsign] at hmagnitude
    exact scan_of_scanMagnitude hmagnitude
  | true =>
    rw [hsign] at hmagnitude
    exact hmagnitude

end

/-! ## Range -/

variable (reader : FloatReader)

theorem inRange_double (n : Numeral) : (Source.number (double reader n)).InRange := by
  rw [double]
  cases reader n <;> trivial

theorem inRange_whole (negative : Bool) (digits : List UInt8) :
    (Source.number (whole reader negative digits)).InRange := by
  unfold whole
  generalize (if negative = true then -(ofDigits digits : Int) else ofDigits digits) = i
  simp only
  split
  · exact inRange_double reader _
  · rename_i h
    have hi : IsInt64 i ∨ IsUInt64 i := Decidable.of_not_not (not_or.mp h).2
    exact hi

/-- What is scanned is a double, a whole number or a number that breaks. -/
theorem scan_cases {P : Source → Prop}
    (double : ∀ n, P (.number (double reader n)))
    (whole : ∀ negative digits, P (.number (whole reader negative digits)))
    (broken : ∀ reading skipping, P (.broken .other reading skipping)) (bytes : List UInt8) :
    P (scan reader bytes).1 := by
  have hexponent : ∀ negative digits fraction bytes,
      P (scanExponent reader negative digits fraction bytes).1 := by
    intro negative digits fraction bytes
    unfold scanExponent
    simp only
    split
    · exact broken _ _
    · exact double _
  have htail : ∀ negative digits fraction bytes,
      P (scanTail reader negative digits fraction bytes).1 := by
    intro negative digits fraction bytes
    have hplain : P (scanTail.plainValue reader negative digits fraction) := by
      cases fraction with
      | none => exact whole _ _
      | some fraction => exact double _
    match bytes with
    | [] => exact hplain
    | b :: rest =>
      rw [scanTail]
      split
      · exact hexponent _ _ _ _
      · exact hplain
  have hmagnitude : ∀ negative bytes, P (scanMagnitude reader negative bytes).1 := by
    intro negative bytes
    unfold scanMagnitude
    simp only
    split
    · exact broken _ _
    · exact broken _ _
    · split
      · split
        · exact broken _ _
        · exact htail _ _ _ _
      · exact htail _ _ _ _
  match bytes with
  | [] => exact broken _ _
  | b :: rest =>
    by_cases hb : b = 0x2D
    · rw [hb]
      exact hmagnitude true rest
    · rw [scan_of_ne_minus hb]
      exact hmagnitude false _

theorem inRange_scan (bytes : List UInt8) : (scan reader bytes).1.InRange :=
  scan_cases reader (inRange_double reader) (inRange_whole reader) (fun _ _ => trivial) bytes

theorem syntaxOnly_double (n : Numeral) : SyntaxOnly (double reader n) := by
  unfold double
  split
  · exact nofun
  · rintro _ ⟨⟩
    decide

theorem syntaxOnly_whole (negative : Bool) (digits : List UInt8) :
    SyntaxOnly (whole reader negative digits) := by
  unfold whole
  generalize (if negative = true then -(ofDigits digits : Int) else ofDigits digits) = i
  simp only
  split
  · exact syntaxOnly_double reader _
  · exact nofun

/-- What is scanned as a number is one, if it does not break. A number without a value is too large,
which is a fault of syntax. -/
theorem number_of_scan (bytes : List UInt8) : (∃ r, SyntaxOnly r ∧ (scan reader bytes).1 = .number r) ∨
    ∃ reading skipping, (scan reader bytes).1 = .broken .other reading skipping := by
  refine scan_cases reader (P := fun v => (∃ r, SyntaxOnly r ∧ v = .number r) ∨
    ∃ reading skipping, v = .broken .other reading skipping) ?_ ?_ ?_ bytes
  · exact fun n => .inl ⟨_, syntaxOnly_double reader n, rfl⟩
  · exact fun negative digits => .inl ⟨_, syntaxOnly_whole reader negative digits, rfl⟩
  · exact fun reading skipping => .inr ⟨reading, skipping, rfl⟩

end NumberLiteral

end ShapeSchema
