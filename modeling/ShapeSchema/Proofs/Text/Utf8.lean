import ShapeSchema.Load.Reader

/-!
# The bytes of a text

What the readers see of a text are its bytes: those of its characters, one after the other. Of a
character that is no control character, no quote and no backslash, no byte is one of these either.
-/

namespace ShapeSchema

/-- The bytes of characters. -/
def utf8 (cs : List Char) : List UInt8 := cs.flatMap String.utf8EncodeChar

@[simp] theorem utf8_nil : utf8 [] = [] := rfl

theorem utf8_cons (c : Char) (cs : List Char) : utf8 (c :: cs) = String.utf8EncodeChar c ++ utf8 cs :=
  List.flatMap_cons

@[simp] theorem utf8_append (cs ds : List Char) : utf8 (cs ++ ds) = utf8 cs ++ utf8 ds :=
  List.flatMap_append

theorem utf8_ne_nil {cs : List Char} (h : cs ≠ []) : utf8 cs ≠ [] := by
  cases cs with
  | nil => exact absurd rfl h
  | cons c cs => simp [utf8_cons]

theorem utf8Encode_eq (cs : List Char) : cs.utf8Encode = (utf8 cs).toByteArray := rfl

theorem Source.bytesOf_ofList (cs : List Char) : bytesOf (String.ofList cs) = utf8 cs := by
  rw [bytesOf, String.toByteArray_ofList, utf8Encode_eq, List.toList_data_toByteArray]

/-- The bytes of a text are read as the text. -/
theorem StringScan.decode_utf8 (s : String) : decode (utf8 s.toList) = .ok s := by
  have hbytes : (utf8 s.toList).toByteArray = s.toByteArray := by
    rw [← utf8Encode_eq, String.utf8Encode_toList]
  have hvalid : s.toByteArray.IsValidUTF8 := s.isValidUTF8
  rw [decode, hbytes, String.fromUTF8?, dif_pos hvalid]
  rfl

/-! ## Single characters -/

theorem utf8EncodeChar_ascii {c : Char} (h : c.toNat < 0x80) :
    String.utf8EncodeChar c = [UInt8.ofNat c.toNat] :=
  if_pos (Nat.le_of_lt_succ h)

theorem le_toNat_ofNat {n k base : Nat} (hk : 0 < k) (hbase : 0x80 ≤ base) (hsum : base + k ≤ 0x100) :
    0x80 ≤ (UInt8.ofNat (n % k + base)).toNat := by
  have hlt : n % k < k := Nat.mod_lt n hk
  rw [UInt8.toNat_ofNat']
  omega

/-- The bytes of the other characters are all past those of ASCII. -/
theorem le_of_mem_utf8EncodeChar {c : Char} (h : ¬c.toNat < 0x80) {b : UInt8}
    (hb : b ∈ String.utf8EncodeChar c) : 0x80 ≤ b.toNat := by
  have hone : ¬c.val.toNat ≤ 0x7F := fun hle => h (Nat.lt_succ_of_le hle)
  unfold String.utf8EncodeChar at hb
  rw [if_neg hone] at hb
  -- Two, three or four bytes, each under a mark with its highest bit set.
  split at hb
  · simp only [List.mem_cons, List.not_mem_nil, or_false] at hb
    rcases hb with rfl | rfl <;> exact le_toNat_ofNat (by decide) (by decide) (by decide)
  · split at hb
    · simp only [List.mem_cons, List.not_mem_nil, or_false] at hb
      rcases hb with rfl | rfl | rfl <;> exact le_toNat_ofNat (by decide) (by decide) (by decide)
    · simp only [List.mem_cons, List.not_mem_nil, or_false] at hb
      rcases hb with rfl | rfl | rfl | rfl <;>
        exact le_toNat_ofNat (by decide) (by decide) (by decide)

end ShapeSchema
