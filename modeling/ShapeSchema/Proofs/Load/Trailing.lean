import ShapeSchema.Proofs.Load.Reader
import ShapeSchema.Proofs.Load.RoundTrip
import ShapeSchema.Proofs.Load.Whole

/-!
# What stands behind a value

A value that stands in a text in full is read as the same value with more bytes behind it, and those
are left in the end. Only a number has no end of its own: it goes on up to something that is no
part of it. A struct is loaded from a list or an object, so it does not depend on what follows.
-/

namespace ShapeSchema

/-! ## Strings -/

namespace StringScan

/-- A string that ends ends in the same way with more bytes behind it. -/
def Continues (more : List UInt8) (result result' : StringScan) : Prop :=
  ∀ content rest, result = closed content rest → result' = closed content (rest ++ more)

namespace Continues

variable {more : List UInt8} {result result' : StringScan}

theorem broken {reading skipping : Fault} : Continues more (.broken reading skipping) result' := by
  rintro content rest ⟨⟩

theorem push (h : Continues more result result') (bytes : List UInt8) :
    Continues more (result.push bytes) (result'.push bytes) := by
  intro content rest hpush
  cases result with
  | closed c r =>
    obtain ⟨rfl, rfl⟩ := StringScan.closed.inj hpush
    rw [h c r rfl]
    rfl
  | broken reading skipping => cases hpush

theorem fail (h : Continues more result result') (fault : Fault) :
    Continues more (result.fail fault) (result'.fail fault) := by
  intro content rest hfail
  cases result with
  | closed c r =>
    obtain ⟨rfl, rfl⟩ := StringScan.closed.inj hfail
    rw [h c r rfl]
    rfl
  | broken reading skipping => cases hfail

end Continues

theorem scan_continues (bytes more : List UInt8) :
    Continues more (scan bytes) (scan (bytes ++ more)) := by
  fun_induction scan bytes with
  | case1 => exact .broken
  | case2 rest =>
    rintro _ _ ⟨⟩
    rw [List.cons_append, scan.eq_def]
    rfl
  | case3 => exact .broken
  | case4 e rest byte hshort _ ih =>
    rw [List.cons_append, List.cons_append, scan_short hshort]
    exact ih.push _
  | case5 => exact .broken
  | case6 => exact .broken
  | case7 e hshort he h1 h2 h3 h4 rest m hhex htrailing hquote ih =>
    rw [scan.eq_def (_ ++ more)]
    simp only [List.cons_append, hquote, ↓reduceIte, hshort, he, hhex, htrailing]
    exact ih.fail _
  | case8 => exact .broken
  | case9 => exact .broken
  | case10 => exact .broken
  | case11 e hshort he h1 h2 h3 h4 n hhex htrailing hleading g1 g2 g3 g4 after m hhex' htrailing'
      hquote ih =>
    rw [scan.eq_def (_ ++ more)]
    simp only [List.cons_append, hquote, ↓reduceIte, hshort, he, hhex, htrailing,
      Bool.false_eq_true, hleading, hhex', htrailing']
    exact ih.push _
  | case12 e hshort he h1 h2 h3 h4 n hhex htrailing hleading g1 g2 g3 g4 after m hhex' htrailing'
      hquote ih =>
    rw [scan.eq_def (_ ++ more)]
    simp only [List.cons_append, hquote, ↓reduceIte, hshort, he, hhex, htrailing,
      Bool.false_eq_true, hleading, hhex', htrailing']
    exact ih.fail _
  | case13 => exact .broken
  | case14 e hshort he h1 h2 h3 h4 n hhex htrailing hleading other after hnone _ hsecond hquote ih =>
    -- With more bytes behind it, what follows is still no second escape.
    have hno : ∀ tail, other :: (after ++ more) ≠ 0x5C :: 0x75 :: tail := by
      intro tail heq
      obtain ⟨rfl, hafter⟩ := List.cons.inj heq
      cases after with
      | nil => exact hnone rfl rfl
      | cons b after =>
        obtain ⟨rfl, -⟩ := List.cons.inj hafter
        exact hsecond after rfl rfl
    rw [scan.eq_def (_ ++ more)]
    simp only [List.cons_append, hquote, ↓reduceIte, hshort, he, hhex, htrailing,
      Bool.false_eq_true, hleading]
    split
    · rename_i heq
      cases heq
    · rename_i heq
      obtain ⟨rfl, hnil⟩ := List.cons.inj heq
      exact absurd (List.append_eq_nil_iff.mp hnil).1 (hnone rfl)
    · rename_i heq
      exact absurd heq (hno _)
    · rename_i heq
      exact absurd heq (hno _)
    · rename_i heq
      obtain ⟨rfl, rfl⟩ := List.cons.inj heq
      exact ih.fail _
  | case15 e hshort he h1 h2 h3 h4 rest n hhex htrailing hleading hquote ih =>
    rw [scan.eq_def (_ ++ more)]
    simp only [List.cons_append, hquote, ↓reduceIte, hshort, he, hhex, htrailing,
      Bool.false_eq_true, hleading]
    exact ih.push _
  | case16 => exact .broken
  | case17 => exact .broken
  | case18 b rest h1 h2 h3 ih =>
    rw [List.cons_append, scan_plain ⟨h1, h2, h3⟩]
    exact ih.push _

end StringScan

/-! ## Numbers -/

/-- The outcome of reading from the front of a text, with more bytes left. -/
def withMore {α : Type} (more : List UInt8) (out : α × List UInt8) : α × List UInt8 :=
  (out.1, out.2 ++ more)

namespace NumberLiteral

variable {reader : FloatReader} {bytes digits : List UInt8} {negative : Bool}

/-- A row of digits that ends before the text does is not made longer by more bytes. -/
theorem digits_append (h : bytes.dropWhile isDigit ≠ []) (more : List UInt8) :
    (bytes ++ more).takeWhile isDigit = bytes.takeWhile isDigit ∧
      (bytes ++ more).dropWhile isDigit = bytes.dropWhile isDigit ++ more := by
  induction bytes with
  | nil => exact absurd rfl h
  | cons b bytes ih =>
    cases hb : isDigit b with
    | true =>
      rw [List.dropWhile_cons_of_pos hb] at h
      obtain ⟨htake, hdrop⟩ := ih h
      simp only [List.cons_append, List.takeWhile_cons_of_pos hb, List.dropWhile_cons_of_pos hb,
        htake, hdrop, and_self]
    | false => simp [hb]

theorem splitSign_append (h : (splitSign bytes).2 ≠ []) (more : List UInt8) :
    splitSign (bytes ++ more) = ((splitSign bytes).1, (splitSign bytes).2 ++ more) := by
  match bytes with
  | [] => exact absurd rfl h
  | b :: after =>
    by_cases hminus : b = 0x2D
    · rw [hminus]
      rfl
    · by_cases hplus : b = 0x2B
      · rw [hplus]
        rfl
      · simp [splitSign, hminus, hplus]

theorem scanExponent_append {fraction : List UInt8}
    (h : (scanExponent reader negative digits fraction bytes).2 ≠ []) (more : List UInt8) :
    scanExponent reader negative digits fraction (bytes ++ more) =
      withMore more (scanExponent reader negative digits fraction bytes) := by
  unfold scanExponent at h ⊢
  simp only at h ⊢
  split at h
  · exact absurd rfl h
  · rename_i hpower
    have hend : (splitSign bytes).2.dropWhile isDigit ≠ [] := h
    have hsign : splitSign (bytes ++ more) = ((splitSign bytes).1, (splitSign bytes).2 ++ more) := by
      refine splitSign_append (fun hnil => hend ?_) more
      rw [hnil]
      rfl
    obtain ⟨htake, hdrop⟩ := digits_append hend more
    simp only [hsign, htake, hdrop, if_neg hpower]
    rfl

theorem scanTail_append {fraction : Option (List UInt8)}
    (h : (scanTail reader negative digits fraction bytes).2 ≠ []) (more : List UInt8) :
    scanTail reader negative digits fraction (bytes ++ more) =
      withMore more (scanTail reader negative digits fraction bytes) := by
  match bytes with
  | [] => exact absurd rfl h
  | b :: after =>
    rw [List.cons_append, scanTail, scanTail]
    rw [scanTail] at h
    split
    · rename_i hb
      rw [if_pos hb] at h
      exact scanExponent_append h more
    · rfl

/-- What `scanMagnitude` does behind the digits before the point. -/
def scanPoint (reader : FloatReader) (negative : Bool) (digits bytes : List UInt8) :
    Source × List UInt8 :=
  match bytes with
  | 0x2E :: rest =>
    let fraction := rest.takeWhile isDigit
    if fraction.isEmpty then broken rest
    else scanTail reader negative digits (some fraction) (rest.dropWhile isDigit)
  | _ => scanTail reader negative digits none bytes

theorem scanPoint_of_ne {b : UInt8} (hb : b ≠ 0x2E) (rest : List UInt8) :
    scanPoint reader negative digits (b :: rest) =
      scanTail reader negative digits none (b :: rest) := by
  unfold scanPoint
  split
  · rename_i heq
    exact absurd (List.cons.inj heq).1 hb
  · rfl

theorem scanPoint_append (h : (scanPoint reader negative digits bytes).2 ≠ []) (more : List UInt8) :
    scanPoint reader negative digits (bytes ++ more) =
      withMore more (scanPoint reader negative digits bytes) := by
  match bytes with
  | [] => exact absurd rfl h
  | b :: after =>
    by_cases hb : b = 0x2E
    · subst hb
      rw [scanPoint] at h
      rw [List.cons_append, scanPoint, scanPoint]
      split at h
      · exact absurd rfl h
      · rename_i hfraction
        have hend : after.dropWhile isDigit ≠ [] := by
          intro hnil
          rw [hnil] at h
          exact h rfl
        obtain ⟨htake, hdrop⟩ := digits_append hend more
        rw [htake, hdrop, if_neg hfraction, if_neg hfraction]
        exact scanTail_append h more
    · rw [scanPoint_of_ne hb] at h
      rw [List.cons_append, scanPoint_of_ne hb, scanPoint_of_ne hb]
      exact scanTail_append h more

theorem scanMagnitude_append (h : (scanMagnitude reader negative bytes).2 ≠ []) (more : List UInt8) :
    scanMagnitude reader negative (bytes ++ more) =
      withMore more (scanMagnitude reader negative bytes) := by
  have hend : bytes.dropWhile isDigit ≠ [] := by
    intro hnil
    unfold scanMagnitude at h
    simp only [hnil] at h
    split at h <;> exact h rfl
  obtain ⟨htake, hdrop⟩ := digits_append hend more
  unfold scanMagnitude at h ⊢
  simp only [htake, hdrop] at h ⊢
  revert h
  split
  · exact fun h => absurd rfl h
  · exact fun h => absurd rfl h
  · exact fun h => scanPoint_append h more

theorem scan_append (h : (scan reader bytes).2 ≠ []) (more : List UInt8) :
    scan reader (bytes ++ more) = withMore more (scan reader bytes) := by
  match bytes with
  | [] => exact absurd rfl h
  | b :: after =>
    by_cases hb : b = 0x2D
    · subst hb
      exact scanMagnitude_append h more
    · rw [scan_of_ne_minus hb] at h
      rw [List.cons_append, scan_of_ne_minus hb, scan_of_ne_minus hb]
      exact scanMagnitude_append h more

end NumberLiteral

/-! ## Values -/

namespace Source

/-- The value stands in the text in full, and where it ends is known: behind a number there is
something. -/
structure Ends (out : Source × List UInt8) : Prop where
  whole : out.1.Whole
  stops : (∃ r, out.1 = .number r) → out.2 ≠ []

theorem skipBlanks_append {bytes rest : List UInt8} {b : UInt8}
    (h : skipBlanks bytes = b :: rest) (more : List UInt8) :
    skipBlanks (bytes ++ more) = b :: (rest ++ more) := by
  unfold skipBlanks at h ⊢
  rw [List.dropWhile_append, h]
  rfl

theorem scanWord_append {opening : Opening} {value : Source} {letters : List Char}
    {rest : List UInt8} (h : (scanWord opening value letters rest).1.Whole)
    (more : List UInt8) : scanWord opening value letters (rest ++ more) =
      withMore more (scanWord opening value letters rest) := by
  induction letters generalizing rest with
  | nil => rfl
  | cons c letters ih =>
    cases rest with
    | nil => cases h
    | cons b rest =>
      rw [scanWord] at h
      rw [List.cons_append, scanWord, scanWord]
      split
      · rename_i hb
        rw [if_pos hb] at h
        exact ih h
      · rename_i hb
        rw [if_neg hb] at h
        cases h

theorem scanString_append {rest : List UInt8} (h : (scanString rest).1.Whole)
    (more : List UInt8) : scanString (rest ++ more) = withMore more (scanString rest) := by
  unfold scanString at h ⊢
  cases hscan : StringScan.scan rest with
  | closed content after =>
    rw [StringScan.scan_continues rest more content after hscan]
    rfl
  | broken reading skipping =>
    rw [hscan] at h
    cases h

variable {reader : FloatReader}

theorem scanNumber_append {bytes : List UInt8} (h : Ends (NumberLiteral.scan reader bytes))
    (more : List UInt8) :
    NumberLiteral.scan reader (bytes ++ more) = withMore more (NumberLiteral.scan reader bytes) := by
  rcases NumberLiteral.number_of_scan reader bytes with ⟨r, -, hnumber⟩ | ⟨reading, skipping, hbroken⟩
  · exact NumberLiteral.scan_append (h.stops ⟨r, hnumber⟩) more
  · have hwhole := h.whole
    rw [hbroken] at hwhole
    cases hwhole

/-- A value from its first byte on. -/
def readFrom (reader : FloatReader) (fuel : Nat) (b : UInt8) (rest : List UInt8) :
    Source × List UInt8 :=
  match Char.ofUInt8 b with
  | 'n' => scanWord .null .null ['u', 'l', 'l'] rest
  | 't' => scanWord .other (.bool true) ['r', 'u', 'e'] rest
  | 'f' => scanWord .other (.bool false) ['a', 'l', 's', 'e'] rest
  | '"' => scanString rest
  | '[' =>
    let (items, rest) := readItems reader fuel rest
    (.list items, rest)
  | '\x7b' =>
    let (entries, rest) := readEntries reader fuel rest
    (.record entries, rest)
  | '-' => NumberLiteral.scan reader (b :: rest)
  | _ =>
    if NumberLiteral.isDigit b then NumberLiteral.scan reader (b :: rest)
    else (.broken .other .expectedValue .expectedValue, [])

theorem read_eq (fuel : Nat) (bytes : List UInt8) : read reader (fuel + 1) bytes =
    match skipBlanks bytes with
    | [] => (.broken .nothing .endInValue .endInValue, [])
    | b :: rest => readFrom reader fuel b rest := rfl

/-- An entry from what stands behind its key. -/
def entryAfterKey (reader : FloatReader) (fuel : Nat) (key : Except Fault String)
    (rest : List UInt8) : Entries × List UInt8 :=
  match skipBlanks rest with
  | [] => (.noColon key .endInObject, [])
  | b :: rest =>
    if b ≠ 0x3A then (.noColon key .expectedColon, [])
    else entryBefore reader fuel key (read reader fuel rest).1 (read reader fuel rest).2

theorem readEntry_key (fuel : Nat) (rest : List UInt8) : readEntry reader (fuel + 1) (0x22 :: rest) =
    match StringScan.scan rest with
    | .broken reading skipping => (.brokenKey reading skipping, [])
    | .closed content rest => entryAfterKey reader fuel (content.bind StringScan.decode) rest := rfl

theorem readEntry_notKey {fuel : Nat} {bytes : List UInt8} (h : ∀ rest, bytes ≠ 0x22 :: rest) :
    readEntry reader (fuel + 1) bytes = (.notKey, []) := by
  unfold readEntry
  split
  · exact absurd rfl (h _)
  · rfl

section

variable {fuel fuel' : Nat} {bytes rest more : List UInt8}

/-- What this reader finds in full it also finds with other fuel and with more bytes. -/
def Agrees {α : Type} (Full : α × List UInt8 → Prop) (read : Nat → List UInt8 → α × List UInt8)
    (fuel fuel' : Nat) (more : List UInt8) : Prop :=
  ∀ bytes, Full (read fuel bytes) → read fuel' (bytes ++ more) = withMore more (read fuel bytes)

/-- All readers agree. -/
structure AllAgree (reader : FloatReader) (fuel fuel' : Nat) (more : List UInt8) : Prop where
  read : Agrees Ends (read reader) fuel fuel' more
  items : Agrees (fun out => out.1.Whole) (readItems reader) fuel fuel' more
  item : Agrees (fun out => out.1.Whole) (readItem reader) fuel fuel' more
  entries : Agrees (fun out => out.1.Whole) (readEntries reader) fuel fuel' more
  entry : Agrees (fun out => out.1.Whole) (readEntry reader) fuel fuel' more

theorem readFrom_append (hall : AllAgree reader fuel fuel' more) {b : UInt8}
    (h : Ends (readFrom reader fuel b rest)) :
    readFrom reader fuel' b (rest ++ more) = withMore more (readFrom reader fuel b rest) := by
  revert h
  unfold readFrom
  split
  · exact fun h => scanWord_append h.whole more
  · exact fun h => scanWord_append h.whole more
  · exact fun h => scanWord_append h.whole more
  · exact fun h => scanString_append h.whole more
  · intro h
    simp only [hall.items rest h.whole]
    rfl
  · intro h
    simp only [hall.entries rest h.whole]
    rfl
  · exact fun h => scanNumber_append h more
  · split
    · exact fun h => scanNumber_append h more
    · intro h
      cases h.whole

/-! ### Items and entries -/

/-- What stands behind a value ends in the closing bracket, or goes on with more that agrees. -/
theorem behindValue_append {σ : Type} {Full : σ → Prop} {closing : UInt8} {done : Ending → σ}
    {readMore readMore' : List UInt8 → σ × List UInt8}
    (hdone : ∀ ending, Full (done ending) → ending = .closed)
    (hmore : ∀ bytes, Full (readMore bytes).1 →
      readMore' (bytes ++ more) = withMore more (readMore bytes))
    (h : Full (behindValue closing done readMore rest).1) :
    behindValue closing done readMore' (rest ++ more) =
      withMore more (behindValue closing done readMore rest) := by
  revert h
  unfold behindValue
  cases hrest : skipBlanks rest with
  | nil =>
    intro h
    cases hdone _ h
  | cons b after =>
    simp only [skipBlanks_append hrest more]
    split
    · exact fun _ => rfl
    · split
      · cases hafter : skipBlanks after with
        | nil =>
          intro h
          cases hdone _ h
        | cons c behind =>
          simp only [skipBlanks_append hafter more]
          split
          · intro h
            cases hdone _ h
          · exact hmore (c :: behind)
      · intro h
        cases hdone _ h

theorem itemBefore_append (hitem : Agrees (fun out => out.1.Whole) (readItem reader) fuel fuel' more)
    {value : Source} (h : (itemBefore reader fuel value rest).1.Whole) :
    itemBefore reader fuel' value (rest ++ more) =
      withMore more (itemBefore reader fuel value rest) := by
  rw [itemBefore_eq] at h ⊢
  rw [itemBefore_eq]
  refine behindValue_append (fun _ => Items.closed_of_whole) (fun bytes hbytes => ?_) h
  rw [hitem bytes (Items.whole_next.mp hbytes).2]
  rfl

/-- Behind an item of a list that stands in full there is something. -/
theorem ends_of_itemBefore {out : Source × List UInt8}
    (h : (itemBefore reader fuel out.1 out.2).1.Whole) : Ends out := by
  constructor
  · revert h
    rw [itemBefore_eq]
    exact of_behindValue (Q := fun items : Items => items.Whole → out.1.Whole)
      (fun _ h => (Items.whole_next.mp h).1) (fun _ h => (Items.whole_next.mp h).1) out.2
  · intro _ hnil
    rw [hnil] at h
    cases Items.closed_of_whole h

theorem entryBefore_append
    (hentry : Agrees (fun out => out.1.Whole) (readEntry reader) fuel fuel' more)
    {key : Except Fault String} {value : Source}
    (h : (entryBefore reader fuel key value rest).1.Whole) :
    entryBefore reader fuel' key value (rest ++ more) =
      withMore more (entryBefore reader fuel key value rest) := by
  rw [entryBefore_eq] at h ⊢
  rw [entryBefore_eq]
  refine behindValue_append (fun _ => Entries.closed_of_whole) (fun bytes hbytes => ?_) h
  rw [hentry bytes (Entries.whole_next.mp hbytes).2]
  rfl

theorem ends_of_entryBefore {key : Except Fault String} {out : Source × List UInt8}
    (h : (entryBefore reader fuel key out.1 out.2).1.Whole) : Ends out := by
  constructor
  · revert h
    rw [entryBefore_eq]
    exact of_behindValue (Q := fun entries : Entries => entries.Whole → out.1.Whole)
      (fun _ h => (Entries.whole_next.mp h).1) (fun _ h => (Entries.whole_next.mp h).1) out.2
  · intro _ hnil
    rw [hnil] at h
    cases Entries.closed_of_whole h

/-- An entry that stands in full behind its key. -/
theorem entryAfterKey_append (hall : AllAgree reader fuel fuel' more) {key : Except Fault String}
    (h : (entryAfterKey reader fuel key rest).1.Whole) :
    entryAfterKey reader fuel' key (rest ++ more) =
      withMore more (entryAfterKey reader fuel key rest) := by
  revert h
  unfold entryAfterKey
  cases hrest : skipBlanks rest with
  | nil =>
    intro h
    cases h
  | cons b after =>
    simp only [skipBlanks_append hrest more]
    split
    · intro h
      cases h
    · intro h
      rw [hall.read after (ends_of_entryBefore h)]
      exact entryBefore_append hall.entry h

/-! ### All readers -/

theorem allAgree_zero (fuel' : Nat) (more : List UInt8) : AllAgree reader 0 fuel' more where
  read _ h := by cases h.whole
  items _ h := by cases h
  item _ h := by cases h
  entries _ h := by cases h
  entry _ h := by cases h

theorem allAgree_succ (hall : AllAgree reader fuel fuel' more) :
    AllAgree reader (fuel + 1) (fuel' + 1) more where
  read bytes := by
    rw [read_eq, read_eq]
    cases hbytes : skipBlanks bytes with
    | nil =>
      intro h
      cases h.whole
    | cons b rest =>
      rw [skipBlanks_append hbytes more]
      exact readFrom_append hall
  items bytes := by
    unfold readItems
    cases hbytes : skipBlanks bytes with
    | nil =>
      intro h
      cases Items.whole_done.mp h
    | cons b rest =>
      simp only [skipBlanks_append hbytes more]
      split
      · exact fun _ => rfl
      · exact hall.item (b :: rest)
  item bytes h := by
    rw [readItem_eq] at h ⊢
    rw [readItem_eq, hall.read bytes (ends_of_itemBefore h)]
    exact itemBefore_append hall.item h
  entries bytes := by
    unfold readEntries
    cases hbytes : skipBlanks bytes with
    | nil =>
      intro h
      cases Entries.whole_done.mp h
    | cons b rest =>
      simp only [skipBlanks_append hbytes more]
      split
      · exact fun _ => rfl
      · exact hall.entry (b :: rest)
  entry bytes h := by
    by_cases hkey : ∃ rest, bytes = 0x22 :: rest
    · obtain ⟨rest, rfl⟩ := hkey
      rw [readEntry_key] at h ⊢
      rw [List.cons_append, readEntry_key]
      cases hscan : StringScan.scan rest with
      | closed content after =>
        rw [hscan] at h
        rw [StringScan.scan_continues rest more content after hscan]
        exact entryAfterKey_append hall h
      | broken reading skipping =>
        rw [hscan] at h
        cases h
    · rw [readEntry_notKey fun rest heq => hkey ⟨rest, heq⟩] at h
      cases h

/-- With more bytes and enough fuel for them, nothing changes about what stands in full. -/
theorem allAgree (hfuel : fuel ≤ fuel') (more : List UInt8) : AllAgree reader fuel fuel' more := by
  induction fuel generalizing fuel' with
  | zero => exact allAgree_zero fuel' more
  | succ fuel ih =>
    obtain ⟨k, rfl⟩ : ∃ k, fuel' = k + 1 := ⟨fuel' - 1, by omega⟩
    exact allAgree_succ (ih (Nat.le_of_succ_le_succ hfuel))

end

/-- A list or an object that stands in full is what it is, whatever follows. -/
theorem ofBytesBy_append {bytes : List UInt8} (hwhole : (ofBytesBy reader bytes).Whole)
    (hnumber : ∀ r, ofBytesBy reader bytes ≠ .number r) (more : List UInt8) :
    ofBytesBy reader (bytes ++ more) = ofBytesBy reader bytes := by
  have hends : Ends (read reader (3 * bytes.length + 3) bytes) :=
    ⟨hwhole, fun ⟨r, hr⟩ => absurd hr (hnumber r)⟩
  have hfuel : 3 * bytes.length + 3 ≤ 3 * (bytes ++ more).length + 3 := by
    rw [List.length_append]
    omega
  rw [ofBytesBy, (allAgree hfuel more).read bytes hends]
  rfl

theorem bytesOf_append (text more : String) :
    bytesOf (text ++ more) = bytesOf text ++ bytesOf more := by
  simp [bytesOf]

end Source

/-! ## Structs -/

/-- Whatever follows the value that a struct is loaded from makes no difference. -/
theorem Struct.loadBytes_append {bytes : List UInt8} {s : Struct} (h : loadBytes bytes = .ok s)
    (more : List UInt8) : loadBytes (bytes ++ more) = .ok s := by
  have hstreamed : Access.document.Streamed := trivial
  have hwhole : (Source.ofBytes bytes).Whole := Source.readStruct_whole hstreamed _ s h
  have hnumber : ∀ r, Source.ofBytes bytes ≠ .number r := by
    intro r hr
    have hread : (Source.ofBytes bytes).readStruct .document = .ok s := h
    rw [hr] at hread
    exact absurd hread Loaded.fault_ne_ok
  rw [← h]
  show (Source.ofBytes (bytes ++ more)).readStruct .document = _
  rw [Source.ofBytes, Source.ofBytesBy_append hwhole hnumber more]
  rfl

/-- **The first value.** A struct that is loaded from a text, or from bytes, depends only on the JSON
value in front: it is loaded in the same way when anything at all is put behind the text. -/
theorem Struct.load_ignores_trailing :
    (∀ (src : String) (s : Struct), load src = .ok s → ∀ t : String, load (src ++ t) = .ok s) ∧
      ∀ (bytes : List UInt8) (s : Struct), loadBytes bytes = .ok s →
        ∀ more : List UInt8, loadBytes (bytes ++ more) = .ok s := by
  constructor
  · intro src s h t
    show loadBytes (Source.bytesOf (src ++ t)) = .ok s
    rw [Source.bytesOf_append]
    exact loadBytes_append h (Source.bytesOf t)
  · exact fun bytes s h more => loadBytes_append h more

theorem Struct.load_int : load "\x7b\"shape\":\x7b\"kind\":\"int\"\x7d\x7d" = .ok int := rfl

/-- Behind the text there may be more brackets, another value, or bytes that are no text. -/
theorem Struct.load_ignores_trailing_int :
    load ("\x7b\"shape\":\x7b\"kind\":\"int\"\x7d\x7d" ++ "\x7d], null") = .ok int ∧
      loadBytes (Source.bytesOf "\x7b\"shape\":\x7b\"kind\":\"int\"\x7d\x7d" ++ [0x5B, 0xFF]) = .ok int :=
  ⟨load_ignores_trailing.1 _ int load_int _, load_ignores_trailing.2 _ int load_int _⟩

end ShapeSchema
