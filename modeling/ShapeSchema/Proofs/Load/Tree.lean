import ShapeSchema.Load.Access
import ShapeSchema.Proofs.Json.Values
import ShapeSchema.Proofs.Outcome
import ShapeSchema.Proofs.Table

/-!
# Reading JSON values back

`Json.source` is the tree that stands in the text of a value. Reading it gives the value, if it is
not nested too deeply; and whatever is read from a tree is well-formed, and no deeper than the tree
and the way of reading allow.
-/

namespace ShapeSchema

/-! ## Outcomes of loading -/

section

variable {α : Type} {a : α}

theorem Loaded.under_eq_ok {step : Step} {r : Loaded α} : r.under step = .ok a ↔ r = .ok a :=
  mapError_eq_ok

theorem Loaded.withoutPath_eq_ok {r : Loaded α} : r.withoutPath = .ok a ↔ r = .ok a :=
  mapError_eq_ok

theorem Loaded.fault_ne_ok {f : Fault} : (Loaded.fault f : Loaded α) ≠ .ok a := by
  intro h
  cases h

theorem Loaded.ofContent_eq_ok {content : Except Fault α} :
    Loaded.ofContent content = .ok a ↔ content = .ok a := by
  cases content with
  | ok b =>
    show (Except.ok b : Loaded α) = .ok a ↔ _
    rw [Except.ok.injEq, Except.ok.injEq]
  | error f => exact iff_of_false Loaded.fault_ne_ok (by simp)

end

/-- What has no content is no text; it is not that something else was expected. -/
def SyntaxOnly {α : Type} (content : Except Fault α) : Prop :=
  ∀ fault, content = .error fault → fault.category ≠ .data

/-! ## Trees of values -/

mutual

/-- The tree that stands in the text of the value. -/
def Json.source : Json → Source
  | .null => .null
  | .bool b => .bool b
  | .number n => .number (.ok n)
  | .string s => .string (.ok s)
  | .array items => .list (sourceOfItems items)
  | .object entries => .record (sourceOfEntries entries)
termination_by structural v => v

/-- The items of a list that ends as it should. -/
def Json.sourceOfItems : List Json → Items
  | [] => .done .closed
  | v :: rest => .next (Json.source v) (sourceOfItems rest)
termination_by structural items => items

/-- The entries of an object that ends as it should. -/
def Json.sourceOfEntries : List (String × Json) → Entries
  | [] => .done .closed
  | (key, v) :: rest => .next (.ok key) (Json.source v) (sourceOfEntries rest)
termination_by structural entries => entries

end

/-! ## Trees of texts -/

mutual

/-- How many lists and objects stand inside each other in the tree. -/
def Source.depth : Source → Nat
  | .list items => items.depth + 1
  | .record entries => entries.depth + 1
  | _ => 0
termination_by structural v => v

/-- The depth of the deepest item. -/
def Items.depth : Items → Nat
  | .done _ => 0
  | .next value rest => max value.depth rest.depth
termination_by structural items => items

/-- The depth of the deepest entry. -/
def Entries.depth : Entries → Nat
  | .next _ value rest => max value.depth rest.depth
  | _ => 0
termination_by structural entries => entries

end

mutual

/-- Every number of the tree is in range, as the numbers of a text are. -/
def Source.InRange : Source → Prop
  | .number (.ok n) => n.InRange
  | .list items => items.InRange
  | .record entries => entries.InRange
  | _ => True
termination_by structural v => v

/-- Every number of the items is in range. -/
def Items.InRange : Items → Prop
  | .done _ => True
  | .next value rest => value.InRange ∧ rest.InRange
termination_by structural items => items

/-- Every number of the entries is in range. -/
def Entries.InRange : Entries → Prop
  | .next _ value rest => value.InRange ∧ rest.InRange
  | _ => True
termination_by structural entries => entries

end

/-! ## Room -/

/-- How deep a value may be that is read in this way from a tree of this depth. -/
def Access.bound : Access → Nat → Nat
  | .streamed room, _ => room - 1
  | .buffered, depth => depth

theorem Access.bound_mono (access : Access) {d d' : Nat} (h : d ≤ d') :
    access.bound d ≤ access.bound d' := by
  cases access with
  | streamed room => exact Nat.le_refl _
  | buffered => exact h

theorem Access.bound_max_le {access : Access} {d d' b : Nat} :
    access.bound (max d d') ≤ b ↔ access.bound d ≤ b ∧ access.bound d' ≤ b := by
  cases access with
  | streamed room => exact (and_self_iff).symm
  | buffered => exact Nat.max_le

theorem Items.bound_next_le {access : Access} {value : Source} {rest : Items} {b : Nat} :
    access.bound (Items.next value rest).depth ≤ b ↔
      access.bound value.depth ≤ b ∧ access.bound rest.depth ≤ b :=
  Access.bound_max_le

theorem Entries.bound_next_le {access : Access} {key : Except Fault String} {value : Source}
    {rest : Entries} {b : Nat} : access.bound (Entries.next key value rest).depth ≤ b ↔
      access.bound value.depth ≤ b ∧ access.bound rest.depth ≤ b :=
  Access.bound_max_le

/-- Entering a list or an object uses up one of the levels. -/
theorem Access.bound_enter {access access' : Access} (h : access.enter = .ok access') (d : Nat) :
    access'.bound d + 1 = access.bound (d + 1) := by
  cases access with
  | streamed room =>
    match room, h with
    | room + 2, h =>
      obtain rfl : Access.streamed (room + 1) = access' := Except.ok.inj h
      rfl
    | 1, h => cases h
    | 0, h => cases h
  | buffered =>
    obtain rfl : Access.buffered = access' := Except.ok.inj h
    rfl

/-! ## Reading values back -/

section

variable {access access' : Access}

/-- There is room for a value of this depth. -/
def Access.Admits (access : Access) (depth : Nat) : Prop :=
  match access with
  | .streamed room => depth < room
  | .buffered => True

theorem Access.Admits.mono {d d' : Nat} (h : access.Admits d') (hle : d ≤ d') : access.Admits d := by
  cases access with
  | streamed room => exact Nat.lt_of_le_of_lt hle h
  | buffered => trivial

/-- What has room for one more level can be entered, and then has room for the rest. -/
theorem Access.Admits.enter {d : Nat} (h : access.Admits (d + 1)) :
    ∃ access', access.enter = .ok access' ∧ access'.Admits d := by
  cases access with
  | streamed room =>
    match room, h with
    | room + 2, h => exact ⟨.streamed (room + 1), rfl, Nat.lt_of_succ_lt_succ h⟩
  | buffered => exact ⟨.buffered, rfl, trivial⟩

theorem Items.json_next (value : Source) (rest : Items) (position : Nat) :
    (Items.next value rest).json access position =
      ((value.json access).under (.index position) >>= fun v =>
        rest.json access (position + 1) >>= fun vs => .ok (v :: vs)) := rfl

theorem Entries.json_next (key : Except Fault String) (value : Source) (rest : Entries)
    (table : Table String Json) :
    (Entries.next key value rest).json access table =
      (readKey key >>= fun key => (value.json access).under (.key key) >>= fun v =>
        rest.json access (Table.insert key v table)) := rfl

theorem Source.json_list (items : Items) :
    (Source.list items).json access =
      (access.enter >>= fun access => items.json access 0 >>= fun vs => .ok (.array vs)) := rfl

theorem Source.json_record (entries : Entries) :
    (Source.record entries).json access =
      (access.enter >>= fun access => entries.json access [] >>= fun vs => .ok (.object vs)) := rfl

theorem Json.sourceOfItems_json {items : List Json} (h : ∀ v ∈ items, v.source.json access = .ok v)
    (position : Nat) : (sourceOfItems items).json access position = .ok items := by
  induction items generalizing position with
  | nil => rfl
  | cons v rest ih =>
    rw [sourceOfItems, Items.json_next, h v (by simp)]
    have hrest : (sourceOfItems rest).json access (position + 1) = .ok rest :=
      ih (fun w hw => h w (by simp [hw])) _
    show ((sourceOfItems rest).json access (position + 1) >>= _) = _
    rw [hrest]
    rfl

theorem Json.sourceOfEntries_json {entries : List (String × Json)}
    (h : ∀ entry ∈ entries, entry.2.source.json access = .ok entry.2) (table : Table String Json) :
    (sourceOfEntries entries).json access table = .ok (Table.merge table entries) := by
  induction entries generalizing table with
  | nil => rfl
  | cons entry rest ih =>
    obtain ⟨key, v⟩ := entry
    rw [sourceOfEntries, Entries.json_next, h (key, v) (by simp)]
    exact ih (fun e he => h e (by simp [he])) _

/-- **Reading back.** The tree of a well-formed value is read as the value, if there is room. -/
theorem Json.source_json {v : Json} (hv : v.WellFormed) (hroom : access.Admits v.depth) :
    v.source.json access = .ok v := by
  induction v using Json.induction generalizing access with
  | null => rfl
  | bool b => rfl
  | number n => rfl
  | string s => rfl
  | array items ih =>
    obtain ⟨access', henter, hroom'⟩ := Access.Admits.enter hroom
    have hitems : ∀ v ∈ items, v.source.json access' = .ok v := fun v hmem =>
      ih v hmem (wellFormed_array.mp hv v hmem)
        (hroom'.mono (depthOfItems_le.mp (Nat.le_refl _) v hmem))
    rw [source, Source.json_list, henter, ok_bind, sourceOfItems_json hitems, ok_bind]
  | object entries ih =>
    obtain ⟨hdistinct, hvalues⟩ := wellFormed_object.mp hv
    obtain ⟨access', henter, hroom'⟩ := Access.Admits.enter hroom
    have hentries : ∀ entry ∈ entries, entry.2.source.json access' = .ok entry.2 := fun entry hmem =>
      ih entry hmem (hvalues entry hmem)
        (hroom'.mono (depthOfEntries_le.mp (Nat.le_refl _) entry hmem))
    rw [source, Source.json_record, henter, ok_bind, sourceOfEntries_json hentries, ok_bind]
    exact congrArg (fun t => Except.ok (Json.object t)) hdistinct.ofList_eq

end

/-! ## What is read -/

/-- The value is well-formed and no deeper than `n`. -/
def Json.Fits (n : Nat) (v : Json) : Prop := v.WellFormed ∧ v.depth ≤ n

theorem Json.Fits.mono {n n' : Nat} {v : Json} (h : v.Fits n) (hle : n ≤ n') : v.Fits n' :=
  ⟨h.1, Nat.le_trans h.2 hle⟩

section

variable {access : Access}

/-- Reading passes an end only if it is the closing brace, and none of the broken keys. -/
theorem Entries.finish_eq_ok {check : String → Loaded Unit} {entries : Entries}
    (h : entries.finish check = .ok ()) :
    entries = .done .closed ∨ ∃ key value rest, entries = .next key value rest := by
  cases entries with
  | done ending =>
    cases ending with
    | closed => exact .inl rfl
    | _ => cases h
  | brokenKey reading skipping => cases h
  | notKey => cases h
  | noColon key fault =>
    obtain ⟨name, -, h⟩ := bind_eq_ok.mp h
    obtain ⟨_, -, h⟩ := bind_eq_ok.mp h
    exact absurd h Loaded.fault_ne_ok
  | next key value rest => exact .inr ⟨key, value, rest, rfl⟩

mutual

/-- A value that is read is well-formed and no deeper than the tree, which in turn is no deeper than
the way of reading allows. -/
theorem Source.json_fits {access : Access} : ∀ (v : Source) {w : Json}, v.InRange →
    v.json access = .ok w → w.Fits v.depth ∧ v.depth ≤ access.bound v.depth
  | .null, w, _, h => by
    obtain rfl := Except.ok.inj h
    exact ⟨⟨trivial, Nat.le_refl _⟩, Nat.zero_le _⟩
  | .bool b, w, _, h => by
    obtain rfl := Except.ok.inj h
    exact ⟨⟨trivial, Nat.le_refl _⟩, Nat.zero_le _⟩
  | .number (.ok n), w, hrange, h => by
    obtain rfl := Except.ok.inj h
    exact ⟨⟨hrange, Nat.le_refl _⟩, Nat.zero_le _⟩
  | .number (.error fault), w, _, h => by cases h
  | .string (.ok s), w, _, h => by
    obtain rfl := Except.ok.inj h
    exact ⟨⟨trivial, Nat.le_refl _⟩, Nat.zero_le _⟩
  | .string (.error fault), w, _, h => by cases h
  | .list items, w, hrange, h => by
    obtain ⟨access', henter, h⟩ := bind_eq_ok.mp h
    obtain ⟨ws, hws, h⟩ := bind_eq_ok.mp h
    obtain rfl := Except.ok.inj h
    obtain ⟨hfits, hbound⟩ := Items.json_fits items hrange hws
    refine ⟨⟨Json.wellFormed_array.mpr fun w hw => (hfits w hw).1, ?_⟩, ?_⟩
    · exact Json.depth_array_le.mpr fun w hw => (hfits w hw).2
    · exact Nat.le_trans (Nat.succ_le_succ hbound) (Nat.le_of_eq (Access.bound_enter henter _))
  | .record entries, w, hrange, h => by
    obtain ⟨access', henter, h⟩ := bind_eq_ok.mp h
    obtain ⟨out, hout, h⟩ := bind_eq_ok.mp h
    obtain rfl := Except.ok.inj h
    obtain ⟨hdistinct, hfits, hbound⟩ := Entries.json_fits entries hrange hout
      (Nat.le_refl _) List.nodup_nil (by simp)
    refine ⟨⟨Json.wellFormed_object.mpr ⟨hdistinct, fun e he => (hfits e he).1⟩, ?_⟩, ?_⟩
    · exact Json.depth_object_le.mpr fun e he => (hfits e he).2
    · exact Nat.le_trans (Nat.succ_le_succ hbound) (Nat.le_of_eq (Access.bound_enter henter _))
  | .broken opening reading skipping, w, _, h => by cases h

/-- The same of the items of a list. -/
theorem Items.json_fits {access : Access} : ∀ (items : Items) {position : Nat} {ws : List Json},
    items.InRange → items.json access position = .ok ws →
      (∀ w ∈ ws, w.Fits items.depth) ∧ items.depth ≤ access.bound items.depth
  | .done ending, position, ws, _, h => by
    obtain ⟨_, -, h⟩ := bind_eq_ok.mp h
    obtain rfl := Except.ok.inj h
    exact ⟨by simp, Nat.zero_le _⟩
  | .next value rest, position, ws, hrange, h => by
    obtain ⟨w, hw, h⟩ := bind_eq_ok.mp h
    obtain ⟨ws', hws, h⟩ := bind_eq_ok.mp h
    obtain rfl := Except.ok.inj h
    obtain ⟨hfits, hbound⟩ := Source.json_fits value hrange.1 (Loaded.under_eq_ok.mp hw)
    obtain ⟨hfits', hbound'⟩ := Items.json_fits rest hrange.2 hws
    have hleft : value.depth ≤ (Items.next value rest).depth := Nat.le_max_left _ _
    have hright : rest.depth ≤ (Items.next value rest).depth := Nat.le_max_right _ _
    refine ⟨List.forall_mem_cons.mpr ⟨hfits.mono hleft, fun w' hw' => (hfits' w' hw').mono hright⟩, ?_⟩
    exact Nat.max_le.mpr ⟨Nat.le_trans hbound (access.bound_mono hleft),
      Nat.le_trans hbound' (access.bound_mono hright)⟩

/-- The same of the entries of an object, which are stored in a table with entries that fit. -/
theorem Entries.json_fits {access : Access} : ∀ (entries : Entries) {n : Nat}
    {table out : Table String Json}, entries.InRange → entries.json access table = .ok out →
      entries.depth ≤ n → Table.Distinct table → (∀ entry ∈ table, entry.2.Fits n) →
      Table.Distinct out ∧ (∀ entry ∈ out, entry.2.Fits n) ∧
        entries.depth ≤ access.bound entries.depth
  | .next key value rest, n, table, out, hrange, h, hn, hdistinct, htable => by
    obtain ⟨name, -, h⟩ := bind_eq_ok.mp h
    obtain ⟨w, hw, h⟩ := bind_eq_ok.mp h
    obtain ⟨hfits, hbound⟩ := Source.json_fits value hrange.1 (Loaded.under_eq_ok.mp hw)
    have hleft : value.depth ≤ (Entries.next key value rest).depth := Nat.le_max_left _ _
    have hright : rest.depth ≤ (Entries.next key value rest).depth := Nat.le_max_right _ _
    have htable' : ∀ entry ∈ Table.insert name w table, entry.2.Fits n := by
      intro entry hentry
      rcases Table.mem_insert hentry with rfl | hentry
      · exact hfits.mono (Nat.le_trans hleft hn)
      · exact htable entry hentry
    obtain ⟨hout, hall, hbound'⟩ := Entries.json_fits rest hrange.2 h (Nat.le_trans hright hn)
      (Table.distinct_insert hdistinct) htable'
    exact ⟨hout, hall, Nat.max_le.mpr ⟨Nat.le_trans hbound (access.bound_mono hleft),
      Nat.le_trans hbound' (access.bound_mono hright)⟩⟩
  | .done ending, n, table, out, _, h, _, hdistinct, htable => by
    obtain ⟨_, -, h⟩ := bind_eq_ok.mp h
    obtain rfl := Except.ok.inj h
    exact ⟨hdistinct, htable, Nat.zero_le _⟩
  | .brokenKey reading skipping, n, table, out, _, h, _, _, _ => by cases h
  | .notKey, n, table, out, _, h, _, _, _ => by cases h
  | .noColon key fault, n, table, out, _, h, _, hdistinct, htable => by
    obtain ⟨_, -, h⟩ := bind_eq_ok.mp h
    obtain rfl := Except.ok.inj h
    exact ⟨hdistinct, htable, Nat.zero_le _⟩

end

end

end ShapeSchema
