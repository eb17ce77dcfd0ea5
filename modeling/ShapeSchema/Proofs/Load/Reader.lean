import ShapeSchema.Load.Document
import ShapeSchema.Proofs.Load.Numbers
import ShapeSchema.Proofs.Load.Strings
import ShapeSchema.Proofs.Load.Tree

/-!
# Reading texts back

The tree that is read from the compact text of a value is `Json.source` of the value, if the reader
restores each floating point number in it from the number's own text. Three steps for each byte are
enough: every value, list of items and item that is read has a byte of its own.
-/

namespace ShapeSchema

/-! ## Steps of the reader -/

namespace Source

variable {reader : FloatReader} {fuel : Nat} {bytes more rest : List UInt8}

theorem skipBlanks_of_not {b : UInt8} (h : isBlank b = false) (rest : List UInt8) :
    skipBlanks (b :: rest) = b :: rest := by
  simp [skipBlanks, h]

/-- A value starts here: no white space comes before it, and the list does not end. -/
def StartsValue (bytes : List UInt8) : Prop :=
  ∃ b rest, bytes = b :: rest ∧ isBlank b = false ∧ b ≠ 0x5D

theorem read_list (fuel : Nat) (rest : List UInt8) : read reader (fuel + 1) (0x5B :: rest) =
    (.list (readItems reader fuel rest).1, (readItems reader fuel rest).2) := rfl

theorem read_record (fuel : Nat) (rest : List UInt8) : read reader (fuel + 1) (0x7B :: rest) =
    (.record (readEntries reader fuel rest).1, (readEntries reader fuel rest).2) := rfl

theorem read_string (fuel : Nat) (rest : List UInt8) :
    read reader (fuel + 1) (0x22 :: rest) = scanString rest := rfl

theorem readItems_item (h : StartsValue bytes) :
    readItems reader (fuel + 1) bytes = readItem reader fuel bytes := by
  obtain ⟨b, rest, rfl, hblank, hb⟩ := h
  unfold readItems
  rw [skipBlanks_of_not hblank]
  exact if_neg hb

/-- A list or an object from what stands behind a value in it: its end, or a comma and more values. -/
def behindValue {σ : Type} (closing : UInt8) (done : Ending → σ)
    (readMore : List UInt8 → σ × List UInt8) (rest : List UInt8) : σ × List UInt8 :=
  match skipBlanks rest with
  | [] => (done .cut, [])
  | b :: rest =>
    if b = closing then (done .closed, rest)
    else if b = 0x2C then
      match skipBlanks rest with
      | [] => (done .cutAfterComma, [])
      | b :: rest => if b = closing then (done .danglingComma, []) else readMore (b :: rest)
    else (done .stray, [])

theorem of_behindValue {σ : Type} {closing : UInt8} {done : Ending → σ}
    {readMore : List UInt8 → σ × List UInt8} {Q : σ → Prop} (hdone : ∀ ending, Q (done ending))
    (hmore : ∀ bytes, Q (readMore bytes).1) (rest : List UInt8) :
    Q (behindValue closing done readMore rest).1 := by
  unfold behindValue
  split
  · exact hdone .cut
  · split
    · exact hdone .closed
    · split
      · split
        · exact hdone .cutAfterComma
        · split
          · exact hdone .danglingComma
          · exact hmore _
      · exact hdone .stray

/-- The items from what stands behind the first of them. -/
def itemBefore (reader : FloatReader) (fuel : Nat) (value : Source) (rest : List UInt8) :
    Items × List UInt8 :=
  match skipBlanks rest with
  | [] => (.next value (.done .cut), [])
  | b :: rest =>
    if b = 0x5D then (.next value (.done .closed), rest)
    else if b = 0x2C then
      match skipBlanks rest with
      | [] => (.next value (.done .cutAfterComma), [])
      | b :: rest =>
        if b = 0x5D then (.next value (.done .danglingComma), [])
        else
          let (items, rest) := readItem reader fuel (b :: rest)
          (.next value items, rest)
    else (.next value (.done .stray), [])

theorem itemBefore_eq (fuel : Nat) (value : Source) (rest : List UInt8) :
    itemBefore reader fuel value rest = behindValue 0x5D (fun ending => .next value (.done ending))
      (fun bytes =>
        (.next value (readItem reader fuel bytes).1, (readItem reader fuel bytes).2)) rest := rfl

theorem readItem_eq (fuel : Nat) (bytes : List UInt8) : readItem reader (fuel + 1) bytes =
    itemBefore reader fuel (read reader fuel bytes).1 (read reader fuel bytes).2 := rfl

theorem readItem_last {value : Source} (h : read reader fuel bytes = (value, 0x5D :: rest)) :
    readItem reader (fuel + 1) bytes = (.next value (.done .closed), rest) := by
  rw [readItem_eq, h]
  rfl

theorem readItem_more {value : Source} {items : Items}
    (h : read reader fuel bytes = (value, 0x2C :: more)) (hstarts : StartsValue more)
    (hmore : readItem reader fuel more = (items, rest)) :
    readItem reader (fuel + 1) bytes = (.next value items, rest) := by
  obtain ⟨b, after, rfl, hblank, hb⟩ := hstarts
  rw [readItem_eq, h]
  show (match skipBlanks (b :: after) with
    | [] => (Items.next value (.done .cutAfterComma), [])
    | b :: after =>
      if b = 0x5D then (Items.next value (.done .danglingComma), [])
      else
        let (items, rest) := readItem reader fuel (b :: after)
        (Items.next value items, rest)) = _
  rw [skipBlanks_of_not hblank]
  show (if b = 0x5D then _ else _) = _
  rw [if_neg hb, hmore]

theorem readEntries_entry (fuel : Nat) (rest : List UInt8) :
    readEntries reader (fuel + 1) (0x22 :: rest) = readEntry reader fuel (0x22 :: rest) := rfl

section

variable {key : String} {content : List UInt8} {value : Source}

/-- An entry from what stands behind its value. -/
def entryBefore (reader : FloatReader) (fuel : Nat) (key : Except Fault String) (value : Source)
    (rest : List UInt8) : Entries × List UInt8 :=
  match skipBlanks rest with
  | [] => (.next key value (.done .cut), [])
  | b :: rest =>
    if b = 0x7D then (.next key value (.done .closed), rest)
    else if b = 0x2C then
      match skipBlanks rest with
      | [] => (.next key value (.done .cutAfterComma), [])
      | b :: rest =>
        if b = 0x7D then (.next key value (.done .danglingComma), [])
        else
          let (entries, rest) := readEntry reader fuel (b :: rest)
          (.next key value entries, rest)
    else (.next key value (.done .stray), [])

theorem entryBefore_eq (fuel : Nat) (key : Except Fault String) (value : Source) (rest : List UInt8) :
    entryBefore reader fuel key value rest =
      behindValue 0x7D (fun ending => .next key value (.done ending))
        (fun bytes => (.next key value (readEntry reader fuel bytes).1,
          (readEntry reader fuel bytes).2)) rest := rfl

theorem readEntry_value (hscan : StringScan.scan bytes = .closed (.ok content) (0x3A :: more))
    (hkey : StringScan.decode content = .ok key) : readEntry reader (fuel + 1) (0x22 :: bytes) =
      entryBefore reader fuel (.ok key) (read reader fuel more).1 (read reader fuel more).2 := by
  unfold readEntry
  simp only [hscan]
  show entryBefore reader fuel (StringScan.decode content) (read reader fuel more).1
    (read reader fuel more).2 = _
  rw [hkey]

theorem readEntry_last (hscan : StringScan.scan bytes = .closed (.ok content) (0x3A :: more))
    (hkey : StringScan.decode content = .ok key) (h : read reader fuel more = (value, 0x7D :: rest)) :
    readEntry reader (fuel + 1) (0x22 :: bytes) = (.next (.ok key) value (.done .closed), rest) := by
  rw [readEntry_value hscan hkey, h]
  rfl

theorem readEntry_more {entries : Entries} {next : List UInt8}
    (hscan : StringScan.scan bytes = .closed (.ok content) (0x3A :: more))
    (hkey : StringScan.decode content = .ok key)
    (h : read reader fuel more = (value, 0x2C :: 0x22 :: next))
    (hnext : readEntry reader fuel (0x22 :: next) = (entries, rest)) :
    readEntry reader (fuel + 1) (0x22 :: bytes) = (.next (.ok key) value entries, rest) := by
  rw [readEntry_value hscan hkey, h]
  show (Entries.next (.ok key) value (readEntry reader fuel (0x22 :: next)).1,
    (readEntry reader fuel (0x22 :: next)).2) = _
  rw [hnext]

end

/-- A number is read by scanning it. -/
theorem read_of_scan {r : Except Fault Number}
    (h : NumberLiteral.scan reader bytes = (.number r, rest)) :
    read reader (fuel + 1) bytes = (.number r, rest) := by
  obtain ⟨b, after, rfl, hb⟩ := NumberLiteral.starts_of_scan h
  rw [← h]
  rcases hb with rfl | hdigit
  · rfl
  · obtain ⟨n, hn, rfl⟩ := NumberLiteral.isDigit_cases hdigit
    match n, hn with
    | 0, _ | 1, _ | 2, _ | 3, _ | 4, _ | 5, _ | 6, _ | 7, _ | 8, _ | 9, _ => rfl

theorem startsValue_of_scan {r : Except Fault Number}
    (h : NumberLiteral.scan reader bytes = (.number r, rest)) : StartsValue bytes := by
  obtain ⟨b, after, rfl, hb⟩ := NumberLiteral.starts_of_scan h
  refine ⟨b, after, rfl, ?_⟩
  rcases hb with rfl | hdigit
  · decide
  · obtain ⟨n, hn, rfl⟩ := NumberLiteral.isDigit_cases hdigit
    have hall : ∀ n < 10, isBlank (UInt8.ofNat (48 + n)) = false ∧ UInt8.ofNat (48 + n) ≠ 0x5D := by
      decide
    exact hall n hn

end Source

/-! ## Texts of numbers -/

namespace FloatReader

variable {reader : FloatReader} {x : Double}

/-- The double is loaded from its text. -/
def Restores (reader : FloatReader) (x : Double) : Prop :=
  Json.loadBy reader (Json.float (.finite x)).compact = .ok (.float (.finite x))

/-- Reading numbers is inverse to printing them: every double is loaded from its text. -/
def InvertsPrinter (reader : FloatReader) : Prop := ∀ x : Double, reader.Restores x

/-- Whether a double is restored is decided by how the numeral is read that is written for it. -/
theorem exists_numeral (x : Double) : ∃ n, NumberLiteral.Writes n (x.shortest .even) ∧
    ∀ reader : FloatReader, (reader.Restores x ↔ reader n = some x) ∧
      ∀ behind, IsTail behind → NumberLiteral.scan reader (utf8 (Layout.json.write x ++ behind)) =
        (.number (NumberLiteral.double reader n), utf8 behind) := by
  obtain ⟨n, hwrites, hscan⟩ := NumberLiteral.scan_write x
  refine ⟨n, hwrites, fun reader => ⟨?_, hscan reader⟩⟩
  have htext : Source.ofBytesBy reader (Source.bytesOf (Json.float (.finite x)).compact) =
      .number (NumberLiteral.double reader n) := by
    rw [Json.compact, Source.bytesOf_ofList]
    exact congrArg Prod.fst (Source.read_of_scan (hscan reader [] trivial))
  show (Source.ofBytesBy reader _).json .document = _ ↔ _
  rw [htext, NumberLiteral.double]
  cases reader n with
  | none => simp [Source.json, Loaded.ofContent, Loaded.fault, bind, Except.bind]
  | some y => simp [Source.json, Loaded.ofContent, Json.float, bind, Except.bind]

theorem Restores.scan (h : reader.Restores x) {behind : List Char} (hbehind : IsTail behind) :
    NumberLiteral.scan reader (utf8 (Layout.json.write x ++ behind)) =
      (.number (.ok (.float x)), utf8 behind) := by
  obtain ⟨n, -, hn⟩ := exists_numeral x
  rw [(hn reader).2 behind hbehind, NumberLiteral.double, (hn reader).1.mp h]

end FloatReader

/-! ## Texts of values -/

namespace Json

variable {reader : FloatReader}

/-- The text of a number is scanned as a number, -/
theorem scan_number (reader : FloatReader) {n : Number} (hn : n.InRange) {behind : List Char}
    (h : IsTail behind) :
    ∃ r, NumberLiteral.scan reader (utf8 (n.chars ++ behind)) = (.number r, utf8 behind) := by
  cases n with
  | int i => exact ⟨_, NumberLiteral.scan_int hn h⟩
  | float x =>
    obtain ⟨n, -, hscan⟩ := NumberLiteral.scan_write x
    exact ⟨_, hscan reader behind h⟩

/-- and as the same one, if it is a whole number or restored. -/
theorem scan_number_eq {n : Number} (hn : n.InRange)
    (hfloats : ∀ x ∈ (Json.number n).floats, reader.Restores x) {behind : List Char}
    (h : IsTail behind) :
    NumberLiteral.scan reader (utf8 (n.chars ++ behind)) = (.number (.ok n), utf8 behind) := by
  cases n with
  | int i => exact NumberLiteral.scan_int hn h
  | float x => exact (hfloats x (List.mem_singleton_self x)).scan h

/-- The text of a well-formed value starts one. -/
theorem startsValue {v : Json} (hv : v.WellFormed) {behind : List Char} (h : IsTail behind) :
    Source.StartsValue (utf8 (v.charsBefore behind)) := by
  cases v with
  | null => exact ⟨_, _, rfl, by decide, by decide⟩
  | bool b => cases b <;> exact ⟨_, _, rfl, by decide, by decide⟩
  | number n =>
    obtain ⟨r, hscan⟩ := scan_number .nearest hv h
    exact Source.startsValue_of_scan hscan
  | string s => exact ⟨_, _, rfl, by decide, by decide⟩
  | array items => exact ⟨_, _, rfl, by decide, by decide⟩
  | object entries => exact ⟨_, _, rfl, by decide, by decide⟩

theorem isTail_moreItemChars (behind : List Char) (items : List Json) :
    IsTail (moreItemChars behind items) := by
  cases items with
  | nil => exact .inr (.inl rfl)
  | cons v rest => exact .inl rfl

theorem isTail_moreEntryChars (behind : List Char) (entries : List (String × Json)) :
    IsTail (moreEntryChars behind entries) := by
  cases entries with
  | nil => exact .inr (.inr rfl)
  | cons entry rest => exact .inl rfl

/-! ## What stands behind a value -/

theorem suffix_moreItemChars {items : List Json}
    (h : ∀ v ∈ items, ∀ behind, behind <:+ v.charsBefore behind) (behind : List Char) :
    behind <:+ moreItemChars behind items := by
  induction items with
  | nil => exact List.suffix_cons _ _
  | cons v rest ih =>
    have hrest := ih fun w hw => h w (by simp [hw])
    exact (hrest.trans (h v (by simp) _)).trans (List.suffix_cons _ _)

theorem suffix_entry {behind text : List Char} (key : String) (h : behind <:+ text) :
    behind <:+ stringChars key ++ ':' :: text :=
  (h.trans (List.suffix_cons _ _)).trans (List.suffix_append _ _)

theorem suffix_moreEntryChars {entries : List (String × Json)}
    (h : ∀ entry ∈ entries, ∀ behind, behind <:+ entry.2.charsBefore behind) (behind : List Char) :
    behind <:+ moreEntryChars behind entries := by
  induction entries with
  | nil => exact List.suffix_cons _ _
  | cons entry rest ih =>
    obtain ⟨key, v⟩ := entry
    have hrest := ih fun e he => h e (by simp [he])
    have hvalue := suffix_entry key (hrest.trans (h (key, v) (by simp) _))
    exact hvalue.trans (List.suffix_cons _ _)

/-- What stands behind a value is the end of the text. -/
theorem suffix_charsBefore (v : Json) (behind : List Char) : behind <:+ v.charsBefore behind := by
  induction v using Json.induction generalizing behind with
  | null => exact List.suffix_append ['n', 'u', 'l', 'l'] behind
  | bool b =>
    cases b with
    | true => exact List.suffix_append ['t', 'r', 'u', 'e'] behind
    | false => exact List.suffix_append ['f', 'a', 'l', 's', 'e'] behind
  | number n => exact List.suffix_append n.chars behind
  | string s => exact List.suffix_append (stringChars s) behind
  | array items ih =>
    cases items with
    | nil => exact List.suffix_append ['[', ']'] behind
    | cons v rest =>
      have hrest : behind <:+ moreItemChars behind rest :=
        suffix_moreItemChars (fun w hw => ih w (by simp [hw])) behind
      exact (hrest.trans (ih v (by simp) _)).trans (List.suffix_cons _ _)
  | object entries ih =>
    cases entries with
    | nil => exact List.suffix_append ['\x7b', '\x7d'] behind
    | cons entry rest =>
      obtain ⟨key, v⟩ := entry
      have hrest : behind <:+ moreEntryChars behind rest :=
        suffix_moreEntryChars (fun e he => ih e (by simp [he])) behind
      have hvalue := suffix_entry key (hrest.trans (ih (key, v) (by simp) _))
      exact hvalue.trans (List.suffix_cons _ _)

/-! ## Reading back -/

/-- With this fuel the value in front of `behind` is read, and `behind` is left. -/
def ReadsBack (reader : FloatReader) (v : Json) : Prop :=
  ∀ (behind : List Char) (fuel : Nat), IsTail behind →
  3 * (utf8 (v.charsBefore behind)).length ≤ fuel →
    Source.read reader fuel (utf8 (v.charsBefore behind)) = (v.source, utf8 behind)

theorem length_utf8_le {behind text : List Char} (h : behind <:+ text) :
    (utf8 behind).length ≤ (utf8 text).length := by
  obtain ⟨front, rfl⟩ := h
  rw [utf8_append, List.length_append]
  exact Nat.le_add_left _ _

theorem read_items {v : Json} {rest : List Json} (hv : ReadsBack reader v)
    (hwell : ∀ w ∈ rest, w.WellFormed) (hrest : ∀ w ∈ rest, ReadsBack reader w)
    {behind : List Char} {fuel : Nat}
    (hfuel : 3 * (utf8 (v.charsBefore (moreItemChars behind rest))).length + 1 ≤ fuel) :
    Source.readItem reader fuel (utf8 (v.charsBefore (moreItemChars behind rest))) =
      (sourceOfItems (v :: rest), utf8 behind) := by
  induction rest generalizing v fuel with
  | nil =>
    match fuel, hfuel with
    | fuel + 1, hfuel =>
      exact Source.readItem_last (hv _ fuel (isTail_moreItemChars behind []) (Nat.le_of_succ_le_succ hfuel))
  | cons w rest ih =>
    match fuel, hfuel with
    | fuel + 1, hfuel =>
      have hvalue := hv _ fuel (isTail_moreItemChars behind (w :: rest)) (Nat.le_of_succ_le_succ hfuel)
      have hlength := length_utf8_le (suffix_charsBefore v (moreItemChars behind (w :: rest)))
      have hmore : (utf8 (moreItemChars behind (w :: rest))).length =
          (utf8 (w.charsBefore (moreItemChars behind rest))).length + 1 := rfl
      refine Source.readItem_more hvalue (startsValue (hwell w (by simp)) (isTail_moreItemChars _ _)) ?_
      -- The comma is a byte less for the rest, which pays for this step.
      exact ih (hrest w (by simp)) (fun u hu => hwell u (by simp [hu]))
        (fun u hu => hrest u (by simp [hu])) (by omega)

/-- A string in front of `behind`, with its quotes. -/
theorem utf8_stringChars (s : String) (behind : List Char) :
    utf8 (stringChars s ++ behind) = 0x22 :: utf8 (s.toList.flatMap escape ++ '"' :: behind) := by
  rw [stringChars, List.cons_append, List.append_assoc]
  rfl

theorem length_value_le (behind : List Char) (key : String) (v : Json) (rest : List (String × Json)) :
    (utf8 (v.charsBefore (moreEntryChars behind rest))).length ≤
      (utf8 (entryChars behind ((key, v) :: rest))).length :=
  length_utf8_le (suffix_entry key (List.suffix_refl _))

theorem read_entries {key : String} {v : Json} {rest : List (String × Json)} (hv : ReadsBack reader v)
    (hrest : ∀ entry ∈ rest, ReadsBack reader entry.2) {behind : List Char} {fuel : Nat}
    (hfuel : 3 * (utf8 (entryChars behind ((key, v) :: rest))).length + 1 ≤ fuel) :
    Source.readEntry reader fuel (utf8 (entryChars behind ((key, v) :: rest))) =
      (sourceOfEntries ((key, v) :: rest), utf8 behind) := by
  induction rest generalizing key v fuel with
  | nil =>
    match fuel, hfuel with
    | fuel + 1, hfuel =>
      have hlength := length_value_le behind key v []
      have hvalue := hv _ fuel (isTail_moreEntryChars behind []) (by omega)
      rw [entryChars, utf8_stringChars]
      exact Source.readEntry_last (scan_string key _) (StringScan.decode_utf8 key) hvalue
  | cons entry rest ih =>
    obtain ⟨name, w⟩ := entry
    match fuel, hfuel with
    | fuel + 1, hfuel =>
      have hlength := length_value_le behind key v ((name, w) :: rest)
      have hvalue := hv _ fuel (isTail_moreEntryChars behind ((name, w) :: rest)) (by omega)
      have hbehind := length_utf8_le (suffix_charsBefore v (moreEntryChars behind ((name, w) :: rest)))
      have hmore : utf8 (moreEntryChars behind ((name, w) :: rest)) =
          0x2C :: utf8 (entryChars behind ((name, w) :: rest)) := rfl
      rw [hmore] at hvalue hbehind
      rw [List.length_cons] at hbehind
      have hw : ReadsBack reader w := hrest (name, w) (by simp)
      have hnext : Source.readEntry reader fuel (utf8 (entryChars behind ((name, w) :: rest))) =
          (sourceOfEntries ((name, w) :: rest), utf8 behind) :=
        ih hw (fun e he => hrest e (by simp [he])) (by omega)
      rw [entryChars, utf8_stringChars] at hnext hvalue
      rw [entryChars, utf8_stringChars]
      exact Source.readEntry_more (scan_string key _) (StringScan.decode_utf8 key) hvalue hnext

/-- Each value has a byte, so that there is fuel for three steps. -/
theorem readsBack_of_steps {v : Json} (hv : v.WellFormed)
    (h : ∀ (behind : List Char) (fuel : Nat), IsTail behind →
      3 * (utf8 (v.charsBefore behind)).length ≤ fuel + 3 →
      Source.read reader (fuel + 3) (utf8 (v.charsBefore behind)) = (v.source, utf8 behind)) :
    ReadsBack reader v := by
  intro behind fuel hbehind hfuel
  obtain ⟨b, rest, htext, -⟩ := startsValue hv hbehind
  obtain ⟨fuel, rfl⟩ : ∃ n, fuel = n + 3 := by
    rw [htext, List.length_cons] at hfuel
    exact ⟨fuel - 3, by omega⟩
  exact h behind fuel hbehind hfuel

/-- **Reading back.** A well-formed value whose floating point numbers are restored is read from its
text, whatever may stand behind it. -/
theorem readsBack {v : Json} (hv : v.WellFormed) (hfloats : ∀ x ∈ v.floats, reader.Restores x) :
    ReadsBack reader v := by
  induction v using Json.induction with
  | null => exact readsBack_of_steps hv fun _ _ _ _ => rfl
  | bool b => cases b <;> exact readsBack_of_steps hv fun _ _ _ _ => rfl
  | number n =>
    exact readsBack_of_steps hv fun _ _ hbehind _ =>
      Source.read_of_scan (scan_number_eq hv hfloats hbehind)
  | string s =>
    refine readsBack_of_steps hv fun behind fuel _ _ => ?_
    rw [charsBefore, utf8_stringChars, Source.read_string, Source.scanString, scan_string]
    show (Source.string (StringScan.decode (utf8 s.toList)), _) = _
    rw [StringScan.decode_utf8]
    rfl
  | array items ih =>
    have hitems := wellFormed_array.mp hv
    have hback : ∀ v ∈ items, ReadsBack reader v := fun v hmem =>
      ih v hmem (hitems v hmem) (forall_floats_array.mp hfloats v hmem)
    refine readsBack_of_steps hv fun behind fuel hbehind hfuel => ?_
    cases items with
    | nil => rfl
    | cons v rest =>
      -- The bracket is a byte less for the items, which pays for the steps into them.
      have hmore : utf8 ((array (v :: rest)).charsBefore behind) =
          0x5B :: utf8 (v.charsBefore (moreItemChars behind rest)) := rfl
      rw [hmore, List.length_cons] at hfuel
      have hread :
          Source.readItem reader (fuel + 1) (utf8 (v.charsBefore (moreItemChars behind rest))) =
          (sourceOfItems (v :: rest), utf8 behind) :=
        read_items (hback v (by simp)) (fun w hw => hitems w (by simp [hw]))
          (fun w hw => hback w (by simp [hw])) (by omega)
      rw [hmore, Source.read_list, Source.readItems_item
        (startsValue (hitems v (by simp)) (isTail_moreItemChars behind rest)), hread]
      rfl
  | object entries ih =>
    have hback : ∀ entry ∈ entries, ReadsBack reader entry.2 := fun entry hmem =>
      ih entry hmem ((wellFormed_object.mp hv).2 entry hmem)
        (forall_floats_object.mp hfloats entry hmem)
    refine readsBack_of_steps hv fun behind fuel hbehind hfuel => ?_
    cases entries with
    | nil => rfl
    | cons entry rest =>
      obtain ⟨key, v⟩ := entry
      have hmore : utf8 ((object ((key, v) :: rest)).charsBefore behind) =
          0x7B :: utf8 (entryChars behind ((key, v) :: rest)) := rfl
      rw [hmore, List.length_cons] at hfuel
      have hv : ReadsBack reader v := hback (key, v) (by simp)
      have hread : Source.readEntry reader (fuel + 1) (utf8 (entryChars behind ((key, v) :: rest))) =
          (sourceOfEntries ((key, v) :: rest), utf8 behind) :=
        read_entries hv (fun e he => hback e (by simp [he])) (by omega)
      rw [hmore, Source.read_record]
      rw [entryChars, utf8_stringChars] at hread ⊢
      rw [Source.readEntries_entry, hread]
      rfl

/-- The tree of a value's text is the tree of the value. -/
theorem ofBytesBy_compact {v : Json} (hv : v.WellFormed)
    (hfloats : ∀ x ∈ v.floats, reader.Restores x) :
    Source.ofBytesBy reader (Source.bytesOf v.compact) = v.source := by
  rw [compact, Source.bytesOf_ofList, Source.ofBytesBy,
    readsBack hv hfloats [] _ trivial (Nat.le_add_right _ 3)]

end Json

/-! ## What holds of every tree of a text -/

namespace StringScan

/-- A string that ends but has no content is no text. -/
def FaultsOfSyntax : StringScan → Prop
  | closed content _ => SyntaxOnly content
  | broken _ _ => True

theorem FaultsOfSyntax.push {result : StringScan} (h : result.FaultsOfSyntax) (bytes : List UInt8) :
    (result.push bytes).FaultsOfSyntax := by
  cases result with
  | closed content rest =>
    cases content with
    | ok s => exact nofun
    | error fault => exact h
  | broken reading skipping => trivial

theorem faultsOfSyntax_fail {fault : Fault} (h : fault.category ≠ .data) (result : StringScan) :
    (result.fail fault).FaultsOfSyntax := by
  cases result with
  | closed content rest =>
    rintro _ ⟨⟩
    exact h
  | broken reading skipping => trivial

theorem faultsOfSyntax_scan (bytes : List UInt8) : (scan bytes).FaultsOfSyntax := by
  fun_induction scan bytes with
  | case2 => exact nofun
  | case4 _ _ _ _ _ ih => exact ih.push _
  | case7 => exact faultsOfSyntax_fail (by decide) _
  | case11 => rename_i ih; exact ih.push _
  | case12 => exact faultsOfSyntax_fail (by decide) _
  | case14 => exact faultsOfSyntax_fail (by decide) _
  | case15 => rename_i ih; exact ih.push _
  | case18 _ _ _ _ _ ih => exact ih.push _
  | _ => trivial

theorem syntaxOnly_decode {content : Except Fault (List UInt8)} (h : SyntaxOnly content) :
    SyntaxOnly (content.bind decode) := by
  cases content with
  | ok bytes =>
    show SyntaxOnly (decode bytes)
    rw [decode]
    split
    · intro fault hfault
      cases hfault
    · intro fault hfault
      cases hfault
      decide
  | error fault =>
    intro fault' hfault
    cases hfault
    exact h fault rfl

end StringScan

namespace Source

/-- What holds of a tree and of its parts because of how a text is read: from the values to the lists
and objects that they stand in. -/
structure Inherited (P : Source → Prop) (PItems : Items → Prop) (PEntries : Entries → Prop) :
    Prop where
  null : P .null
  bool : ∀ b, P (.bool b)
  number : ∀ reader bytes, P (NumberLiteral.scan reader bytes).1
  string : ∀ {content}, SyntaxOnly content → P (.string content)
  broken : ∀ opening reading skipping, P (.broken opening reading skipping)
  list : ∀ {items}, PItems items → P (.list items)
  record : ∀ {entries}, PEntries entries → P (.record entries)
  itemsDone : ∀ ending, PItems (.done ending)
  item : ∀ {value rest}, P value → PItems rest → PItems (.next value rest)
  entriesDone : ∀ ending, PEntries (.done ending)
  brokenKey : ∀ reading skipping, PEntries (.brokenKey reading skipping)
  notKey : PEntries .notKey
  noColon : ∀ key fault, PEntries (.noColon key fault)
  entry : ∀ {key value rest}, SyntaxOnly key → P value → PEntries rest →
    PEntries (.next key value rest)

namespace Inherited

variable {P : Source → Prop} {PItems : Items → Prop} {PEntries : Entries → Prop}
  {reader : FloatReader}

theorem scanWord (h : Inherited P PItems PEntries) {value : Source} (hvalue : P value)
    (opening : Opening) (letters : List Char) (rest : List UInt8) :
    P (scanWord opening value letters rest).1 := by
  induction letters generalizing rest with
  | nil => exact hvalue
  | cons c letters ih =>
    cases rest with
    | nil => exact h.broken _ _ _
    | cons b rest =>
      rw [Source.scanWord]
      split
      · exact ih rest
      · exact h.broken _ _ _

theorem scanString (h : Inherited P PItems PEntries) (rest : List UInt8) :
    P (scanString rest).1 := by
  have hscan := StringScan.faultsOfSyntax_scan rest
  unfold Source.scanString
  split
  · rename_i content after heq
    rw [heq] at hscan
    exact h.string (StringScan.syntaxOnly_decode hscan)
  · exact h.broken _ _ _

theorem itemBefore (h : Inherited P PItems PEntries) {fuel : Nat} {value : Source} (hvalue : P value)
    (hitem : ∀ bytes, PItems (readItem reader fuel bytes).1) (rest : List UInt8) :
    PItems (itemBefore reader fuel value rest).1 := by
  rw [itemBefore_eq]
  exact of_behindValue (fun _ => h.item hvalue (h.itemsDone _)) (fun _ => h.item hvalue (hitem _)) rest

theorem entryBefore (h : Inherited P PItems PEntries) {fuel : Nat} {key : Except Fault String}
    (hkey : SyntaxOnly key) {value : Source} (hvalue : P value)
    (hentry : ∀ bytes, PEntries (readEntry reader fuel bytes).1) (rest : List UInt8) :
    PEntries (entryBefore reader fuel key value rest).1 := by
  rw [entryBefore_eq]
  exact of_behindValue (fun _ => h.entry hkey hvalue (h.entriesDone _))
    (fun _ => h.entry hkey hvalue (hentry _)) rest

/-- What is inherited holds of whatever is read from a text. -/
theorem read (h : Inherited P PItems PEntries) (reader : FloatReader) (fuel : Nat) :
    (∀ bytes, P (read reader fuel bytes).1) ∧ (∀ bytes, PItems (readItems reader fuel bytes).1) ∧
      (∀ bytes, PItems (readItem reader fuel bytes).1) ∧
      (∀ bytes, PEntries (readEntries reader fuel bytes).1) ∧
      ∀ bytes, PEntries (readEntry reader fuel bytes).1 := by
  -- Each of the five readers calls the others with less fuel.
  induction fuel with
  | zero =>
    exact ⟨fun _ => h.broken _ _ _, fun _ => h.itemsDone _, fun _ => h.itemsDone _,
      fun _ => h.entriesDone _, fun _ => h.entriesDone _⟩
  | succ fuel ih =>
    obtain ⟨hread, hitems, hitem, hentries, hentry⟩ := ih
    refine ⟨fun bytes => ?_, fun bytes => ?_, fun bytes => ?_, fun bytes => ?_, fun bytes => ?_⟩
    · unfold Source.read
      split
      · exact h.broken _ _ _
      · split
        · exact h.scanWord h.null _ _ _
        · exact h.scanWord (h.bool true) _ _ _
        · exact h.scanWord (h.bool false) _ _ _
        · exact h.scanString _
        · exact h.list (hitems _)
        · exact h.record (hentries _)
        · exact h.number _ _
        · split
          · exact h.number _ _
          · exact h.broken _ _ _
    · unfold readItems
      split
      · exact h.itemsDone _
      · split
        · exact h.itemsDone _
        · exact hitem _
    · exact h.itemBefore (hread bytes) hitem _
    · unfold readEntries
      split
      · exact h.entriesDone _
      · split
        · exact h.entriesDone _
        · exact hentry _
    · unfold readEntry
      split
      · rename_i rest
        have hscan := StringScan.faultsOfSyntax_scan rest
        split
        · exact h.brokenKey _ _
        · rename_i content after heq
          rw [heq] at hscan
          simp only
          split
          · exact h.noColon _ _
          · split
            · exact h.noColon _ _
            · exact h.entryBefore (StringScan.syntaxOnly_decode hscan) (hread _) hentry _
      · exact h.notKey

theorem ofBytesBy (h : Inherited P PItems PEntries) (reader : FloatReader) (bytes : List UInt8) :
    P (ofBytesBy reader bytes) :=
  (h.read reader _).1 bytes

end Inherited

/-- Numbers are in range. -/
theorem inRange_inherited : Inherited InRange Items.InRange Entries.InRange where
  null := trivial
  bool _ := trivial
  number := NumberLiteral.inRange_scan
  string _ := trivial
  broken _ _ _ := trivial
  list h := h
  record h := h
  itemsDone _ := trivial
  item hvalue hrest := ⟨hvalue, hrest⟩
  entriesDone _ := trivial
  brokenKey _ _ := trivial
  notKey := trivial
  noColon _ _ := trivial
  entry _ hvalue hrest := ⟨hvalue, hrest⟩

theorem inRange_ofBytesBy (reader : FloatReader) (bytes : List UInt8) :
    (ofBytesBy reader bytes).InRange :=
  inRange_inherited.ofBytesBy reader bytes

end Source

end ShapeSchema
