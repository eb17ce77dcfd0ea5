import ShapeSchema.Json.Printer
import ShapeSchema.Proofs.Text.Utf8

/-!
# Reading strings back

A string in the text of a value is scanned, and what is found between its quotes is decoded, to the
string it was: each escaped character by its own rule, every other byte as it stands.
-/

namespace ShapeSchema

namespace StringScan

/-- A byte that stands for itself. -/
def IsPlain (b : UInt8) : Prop := b ≠ 0x22 ∧ b ≠ 0x5C ∧ ¬b < 0x20

theorem scan_plain {b : UInt8} (hb : IsPlain b) (rest : List UInt8) :
    scan (b :: rest) = (scan rest).push [b] := by
  rw [scan.eq_def]
  simp only [if_neg hb.1, if_neg hb.2.1, if_neg hb.2.2]

theorem push_push (bytes after : List UInt8) (result : StringScan) :
    (result.push after).push bytes = result.push (bytes ++ after) := by
  cases result with
  | closed content rest =>
    cases content with
    | ok s => simp [push, Except.map, List.append_assoc]
    | error fault => rfl
  | broken reading skipping => rfl

theorem scan_append_plain {bytes : List UInt8} (h : ∀ b ∈ bytes, IsPlain b) (rest : List UInt8) :
    scan (bytes ++ rest) = (scan rest).push bytes := by
  induction bytes with
  | nil =>
    cases hscan : scan rest with
    | closed content after => cases content <;> simp [hscan, push, Except.map]
    | broken reading skipping => simp [hscan, push]
  | cons b bytes ih =>
    rw [List.cons_append, scan_plain (h b (by simp)), ih fun c hc => h c (by simp [hc]), push_push]
    rfl

theorem scan_short {e byte : UInt8} (h : shortEscape? e = some byte) (rest : List UInt8) :
    scan (0x5C :: e :: rest) = (scan rest).push [byte] := by
  rw [scan.eq_def]
  simp only [h]
  rfl

/-! ## Four digits -/

/-- The byte of a hexadecimal digit. -/
def hexByte (d : Nat) : UInt8 := UInt8.ofNat (Nat.digitChar d).toNat

theorem hexDigit?_hexByte : ∀ d < 16, hexDigit? (hexByte d) = some d := by decide

theorem utf8EncodeChar_digitChar : ∀ d < 16, String.utf8EncodeChar (Nat.digitChar d) = [hexByte d] := by
  decide

theorem utf8_hex4 (n : Nat) : utf8 (Json.hex4 n) =
    [hexByte (n / 4096 % 16), hexByte (n / 256 % 16), hexByte (n / 16 % 16), hexByte (n % 16)] := by
  have hdigit : ∀ m, String.utf8EncodeChar (Nat.digitChar (m % 16)) = [hexByte (m % 16)] :=
    fun m => utf8EncodeChar_digitChar _ (Nat.mod_lt m (by decide))
  simp [Json.hex4, utf8, hdigit]

theorem hex4?_hexByte {n : Nat} (hn : n < 0x10000) :
    hex4? (hexByte (n / 4096 % 16)) (hexByte (n / 256 % 16)) (hexByte (n / 16 % 16))
      (hexByte (n % 16)) = some n := by
  have hdigit : ∀ m, hexDigit? (hexByte (m % 16)) = some (m % 16) :=
    fun m => hexDigit?_hexByte _ (Nat.mod_lt m (by decide))
  simp only [hex4?, hdigit, Option.bind_eq_bind, Option.bind_some, Option.some.injEq]
  omega

/-- Four digits that are no half of a surrogate pair stand for the character of that number. -/
theorem scan_hex4 {n : Nat} (hn : n < 0xD800) (rest : List UInt8) :
    scan (0x5C :: 0x75 :: (utf8 (Json.hex4 n) ++ rest)) = (scan rest).push (encodePoint n) := by
  have htrailing : isTrailing n = false := by
    simp [isTrailing]
    omega
  have hleading : isLeading n = false := by
    simp [isLeading]
    omega
  have hshort : shortEscape? 0x75 = none := rfl
  have hhex := hex4?_hexByte (show n < 0x10000 by omega)
  rw [utf8_hex4, scan.eq_def]
  simp only [List.cons_append, List.nil_append, hshort, hhex, htrailing, hleading]
  rfl

/-! ## Characters -/

/-- The bytes of a character that is written as it is are plain. -/
theorem isPlain_of_mem {c : Char} (hquote : c ≠ '"') (hbackslash : c ≠ '\\') (hcontrol : ¬c.toNat < 0x20)
    {b : UInt8} (hb : b ∈ String.utf8EncodeChar c) : IsPlain b := by
  -- What is to be excluded is ASCII, and of the bytes of `c` only one of its own code is.
  have hbyte : b.toNat = c.toNat ∨ 0x80 ≤ b.toNat := by
    by_cases hascii : c.toNat < 0x80
    · rw [utf8EncodeChar_ascii hascii, List.mem_singleton] at hb
      rw [hb, UInt8.toNat_ofNat']
      omega
    · exact .inr (le_of_mem_utf8EncodeChar hascii hb)
  have hquote' : c.toNat ≠ 0x22 := fun h => hquote (Char.toNat_inj.mp h)
  have hbackslash' : c.toNat ≠ 0x5C := fun h => hbackslash (Char.toNat_inj.mp h)
  refine ⟨?_, ?_, fun h => ?_⟩
  · rintro rfl
    exact hbyte.elim (fun h => hquote' h.symm) (by decide)
  · rintro rfl
    exact hbyte.elim (fun h => hbackslash' h.symm) (by decide)
  · have hlt : b.toNat < 0x20 := UInt8.lt_iff_toNat_lt.mp h
    omega

/-- Whatever it stands before, an escaped character is scanned as the character. -/
theorem scan_escape (c : Char) (rest : List UInt8) :
    scan (utf8 (Json.escape c) ++ rest) = (scan rest).push (String.utf8EncodeChar c) := by
  rw [Json.escape]
  split
  · rename_i hquote
    subst hquote
    exact scan_short rfl rest
  · split
    · rename_i hbackslash
      subst hbackslash
      exact scan_short rfl rest
    · split
      · rename_i hcontrol
        have hc : ∀ n, c.toNat = n → c = Char.ofNat n := fun n h => h ▸ (Char.ofNat_toNat c).symm
        split
        -- The five control characters that have a letter of their own.
        iterate 5
          next h =>
            rw [hc _ h]
            exact scan_short rfl rest
        · have hpoint : encodePoint c.toNat = String.utf8EncodeChar c := by
            rw [encodePoint, Char.ofNat_toNat]
          rw [← hpoint]
          exact scan_hex4 (by omega) rest
      · rename_i hquote hbackslash hcontrol
        have hbytes : utf8 [c] = String.utf8EncodeChar c := by
          rw [utf8_cons, utf8_nil, List.append_nil]
        rw [hbytes]
        exact scan_append_plain (fun b hb => isPlain_of_mem hquote hbackslash hcontrol hb) rest

/-- Between its quotes, the text of a string is scanned to the bytes of the string. -/
theorem scan_chars (cs : List Char) (rest : List UInt8) :
    scan (utf8 (cs.flatMap Json.escape) ++ 0x22 :: rest) = closed (.ok (utf8 cs)) rest := by
  induction cs with
  | nil =>
    show scan (0x22 :: rest) = _
    rw [scan.eq_def]
    rfl
  | cons c cs ih =>
    rw [List.flatMap_cons, utf8_append, List.append_assoc, scan_escape, ih]
    rfl

end StringScan

/-- **Reading back.** The text of a string, from behind its opening quote. -/
theorem Json.scan_string (s : String) (behind : List Char) :
    StringScan.scan (utf8 (s.toList.flatMap escape ++ '"' :: behind)) =
      .closed (.ok (utf8 s.toList)) (utf8 behind) := by
  rw [utf8_append]
  exact StringScan.scan_chars s.toList (utf8 behind)

end ShapeSchema
