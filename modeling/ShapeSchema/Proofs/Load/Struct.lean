import ShapeSchema.Load.Struct
import ShapeSchema.Proofs.Load.Metadata

/-!
# Loading what structs are written as

The tree of a written struct is loaded as the struct it was. The other way, whatever is loaded as a
struct, in whatever form it stands in the text, loses nothing when it is written, and is written no
deeper than the way of reading allows.
-/

namespace ShapeSchema

/-! ## Reading back -/

section

variable {room : Nat}

theorem Kind.source_read (kind : Kind) (access : Access) :
    (Source.string (.ok kind.text)).readKind access = .ok kind := by
  cases kind <;> rfl

/-- A shape with content is read by its content, for which there is one level less. -/
theorem Kind.source_readShape (kind : Kind) (content : Json) {shape : Shape Struct}
    (h : content.source.readContent (.streamed (room + 1)) kind.content = .ok shape) :
    (kind.written (some content)).source.readShape (.streamed (room + 2)) = .ok shape := by
  show (((Source.string (.ok kind.text)).readKind (.streamed (room + 1))).under (.key "kind") >>=
    fun kind => (Entries.next (.ok "of") content.source (.done .closed)).readContent
      (.streamed (room + 1)) kind.content) = _
  rw [source_read]
  show ((content.source.readContent (.streamed (room + 1)) kind.content).under (.key "of") >>=
    fun shape => .ok shape) = _
  rw [h]
  rfl

theorem Literal.source_read {value : Literal} (hrange : value.InRange)
    (hfinite : (Leaf.literal value).IsFinite) (hroom : value.written.depth < room) :
    value.written.source.readLiteral (.streamed room) = .ok value := by
  match value, room, hroom with
  | .null, room, _ => rfl
  | .emptyOption, room, _ => rfl
  | .nan, room, _ => rfl
  | .string s, room + 2, _ => rfl
  | .int i, room + 2, _ =>
    have hint : (Source.number (.ok (.int i))).readInt64 = .ok i := if_pos hrange
    show ((((Source.number (.ok (.int i))).readInt64 >>= fun i => .ok (Literal.int i)) :
      Loaded Literal).under (.key "int") >>= fun value => .ok value) = _
    rw [hint]
    rfl
  | .float x, room + 2, _ =>
    obtain ⟨y, rfl⟩ := hfinite x rfl
    rfl
  | .bool b, room + 2, _ => rfl

/-- Content that is one struct is read as one. -/
theorem Source.readContent_struct (w : Wrapper) (access : Access) (v : Source) :
    v.readContent access (.struct w) =
      (v.readStruct access >>= fun s => .ok (.wrapper w s)) := by
  cases v with
  | list items =>
    show (access.enter >>= fun access => _) = ((access.enter >>= fun access => _) >>= _)
    cases access.enter <;> rfl
  | record entries =>
    show (access.enter >>= fun access => _) = ((access.enter >>= fun access => _) >>= _)
    cases access.enter <;> rfl
  | _ => rfl

theorem Source.readContent_nothing (access : Access) (l : Leaf) (v : Source) :
    v.readContent access (.nothing l) = v.readNothing access l := by
  cases v <;> rfl

theorem Source.readContent_literal (access : Access) (v : Source) :
    v.readContent access .literal =
      (v.readLiteral access >>= fun value => .ok (.leaf (.literal value))) := by
  cases v <;> rfl

theorem Leaf.depth_written_literal (value : Literal) :
    (Leaf.literal value).written.depth = value.written.depth + 1 := by
  cases value <;> rfl

theorem Leaf.source_read {l : Leaf} {n : Nat} (hl : Shape.Fits n (.leaf l)) (hroom : n < room) :
    l.written.source.readShape (.streamed room) = .ok (.leaf l) := by
  obtain ⟨hrange, hfinite, hdepth⟩ := Shape.fits_leaf.mp hl
  have hlt : l.written.depth < room := Nat.lt_of_le_of_lt hdepth hroom
  cases l with
  | literal value =>
    rw [depth_written_literal] at hlt
    match room, hlt with
    | room + 2, hlt =>
      refine Kind.source_readShape .literal value.written ?_
      rw [Kind.content, Source.readContent_literal,
        Literal.source_read hrange hfinite (Nat.lt_of_succ_lt_succ hlt)]
      rfl
  | _ =>
    match room, hlt with
    | room + 2, _ => rfl

theorem Struct.sourceOfItems_read {access : Access} {items : List Struct}
    (h : ∀ s ∈ items, s.written.source.readStruct access = .ok s) (position : Nat) :
    (Json.sourceOfItems (writtenItems items)).readStructs access position = .ok items := by
  induction items generalizing position with
  | nil => rfl
  | cons s rest ih =>
    have hrest := ih (fun t ht => h t (by simp [ht])) (position + 1)
    show ((s.written.source.readStruct access).under (.index position) >>= fun s =>
      (Json.sourceOfItems (writtenItems rest)).readStructs access (position + 1) >>= fun ss =>
        .ok (s :: ss)) = _
    rw [h s (by simp), hrest]
    rfl

theorem Struct.sourceOfFields_read {access : Access} {fields : List (String × Struct)}
    (h : ∀ field ∈ fields, field.2.written.source.readStruct access = .ok field.2)
    (table : Table String Struct) :
    (Json.sourceOfEntries (writtenFields fields)).readNamed access table =
      .ok (Table.merge table fields) := by
  induction fields generalizing table with
  | nil => rfl
  | cons field rest ih =>
    obtain ⟨name, s⟩ := field
    show ((s.written.source.readStruct access).under (.key name) >>= fun s =>
      (Json.sourceOfEntries (writtenFields rest)).readNamed access (Table.insert name s table)) = _
    rw [h (name, s) (by simp)]
    exact ih (fun f hf => h f (by simp [hf])) _

/-- The policy of an object is read after its fields. -/
theorem UnknownKeys.source_read (policy : UnknownKeys) (access : Access) :
    policy.written.source.readUnknownKeys access = .ok policy := by
  cases policy <;> rfl

/-- A struct is read back if its shape is. -/
theorem Struct.source_read_mk {shape : Shape Struct} {m : Metadata} {n : Nat}
    (hs : (Struct.mk shape m).Fits (n + 1)) (hroom : n + 1 < room)
    (hshape : (writtenShape shape).source.readShape (.streamed (room - 1)) = .ok shape) :
    (Struct.mk shape m).written.source.readStruct (.streamed room) = .ok (.mk shape m) := by
  have hm : m.Fits n := (fits_mk.mp hs).2
  match room, hroom with
  | room + 2, hroom =>
    show (((writtenShape shape).source.readShape (.streamed (room + 1))).under (.key "shape") >>=
      fun shape => (Json.sourceOfEntries (Metadata.presentUnder "metadata"
        (if m.isEmpty then none else some m.written))).readStruct (.streamed (room + 1))
          (some shape) none) = _
    rw [show (writtenShape shape).source.readShape (.streamed (room + 1)) = _ from hshape]
    cases hempty : m.isEmpty with
    | true =>
      obtain rfl : m = {} := by
        obtain ⟨deprecation, default, annotations⟩ := m
        simpa [Metadata.isEmpty, and_assoc] using hempty
      rfl
    | false =>
      show ((m.written.source.readMetadata (.streamed (room + 1))).under (.key "metadata") >>=
        fun m => .ok (Struct.mk shape m)) = _
      rw [Metadata.source_read hm hempty (Nat.lt_of_succ_lt_succ hroom)]
      rfl

theorem Wrapper.kind_content (w : Wrapper) : w.kind.content = .struct w := by
  cases w <;> rfl

theorem Series.kind_content (k : Series) : k.kind.content = .structs k := by
  cases k <;> rfl

/-- **Reading back.** A struct that fits is loaded from its written form as it was. -/
theorem Struct.source_read {s : Struct} {n : Nat} (hs : s.Fits n) (hroom : n < room) :
    s.written.source.readStruct (.streamed room) = .ok s := by
  induction s using Struct.induction generalizing n room with
  | leaf l m =>
    obtain ⟨k, rfl⟩ := hs.pos
    exact source_read_mk hs hroom (Leaf.source_read (fits_mk.mp hs).1 (Nat.lt_sub_of_add_lt hroom))
  | wrapper w inner m ih =>
    obtain ⟨k, rfl⟩ := hs.pos
    obtain ⟨d, rfl, hinner⟩ := Shape.fits_wrapper.mp (fits_mk.mp hs).1
    refine source_read_mk hs hroom ?_
    match room, hroom with
    | room + 3, hroom =>
      refine Kind.source_readShape w.kind inner.written ?_
      rw [Wrapper.kind_content, Source.readContent_struct, ih hinner (by omega)]
      rfl
  | series k items m ih =>
    obtain ⟨n, rfl⟩ := hs.pos
    obtain ⟨d, rfl, hitems⟩ := Shape.fits_series.mp (fits_mk.mp hs).1
    refine source_read_mk hs hroom ?_
    match room, hroom with
    | room + 4, hroom =>
      have hread : (Json.sourceOfItems (writtenItems items)).readStructs (.streamed (room + 1)) 0 =
          .ok items :=
        sourceOfItems_read (fun s hmem => ih s hmem (hitems s hmem) (by omega)) 0
      refine Kind.source_readShape k.kind (.array (writtenItems items)) ?_
      rw [Series.kind_content]
      show ((Json.sourceOfItems (writtenItems items)).readStructs (.streamed (room + 1)) 0 >>=
        fun items => .ok (Shape.series k items)) = _
      rw [hread]
      rfl
  | object fields policy m ih =>
    obtain ⟨n, rfl⟩ := hs.pos
    obtain ⟨d, rfl, hdistinct, hfields⟩ := Shape.fits_object.mp (fits_mk.mp hs).1
    refine source_read_mk hs hroom ?_
    match room, hroom with
    | room + 5, hroom =>
      have hread : (Json.sourceOfEntries (writtenFields fields)).readNamed
          (.streamed (room + 1)) [] = .ok fields := by
        rw [sourceOfFields_read fun field hmem => ih field hmem (hfields field hmem) (by omega)]
        exact congrArg Except.ok hdistinct.ofList_eq
      refine Kind.source_readShape .object (.object
        [("fields", .object (writtenFields fields)), ("unknownKeys", policy.written)]) ?_
      show (((Json.sourceOfEntries (writtenFields fields)).readNamed (.streamed (room + 1)) []).under
        (.key "fields") >>= fun table =>
          (policy.written.source.readUnknownKeys (.streamed (room + 2))).under (.key "unknownKeys") >>=
            fun policy => .ok (Shape.object table policy)) = _
      rw [hread, UnknownKeys.source_read]
      rfl

end

/-! ## What is loaded -/

theorem Shape.Fits.mono {n n' : Nat} {shape : Shape Struct} (h : shape.Fits n) (hle : n ≤ n') :
    shape.Fits n' :=
  Struct.Fits.mono h (Nat.succ_le_succ hle)

theorem Metadata.Fits.mono {n n' : Nat} {m : Metadata} (h : m.Fits n) (hle : n ≤ n') : m.Fits n' :=
  ⟨h.1, h.2.1, fun hempty => Nat.le_trans (h.2.2 hempty) hle⟩

/-- A kind whose content is nothing is that of a leaf that fits everywhere. -/
theorem Kind.fits_nothing {kind : Kind} {l : Leaf} (h : kind.content = .nothing l) (n : Nat) :
    Shape.Fits (n + 1) (.leaf l) := by
  have hl : l.InRange ∧ l.IsFinite ∧ l.written.depth = 1 := by
    cases kind <;> cases h <;> exact ⟨trivial, nofun, rfl⟩
  exact Shape.fits_leaf.mpr ⟨hl.1, hl.2.1, Nat.le_trans (Nat.le_of_eq hl.2.2) (Nat.succ_le_succ (Nat.zero_le n))⟩

theorem Source.readInt64_eq_ok {v : Source} {i : Int} (h : v.readInt64 = .ok i) : IsInt64 i := by
  rw [readInt64.eq_def] at h
  split at h
  · split at h
    · obtain rfl := Except.ok.inj h
      assumption
    · exact absurd h Loaded.fault_ne_ok
  · exact absurd h Loaded.fault_ne_ok

/-- The literals without content are in range, and so is whatever is read as the content of one. -/
theorem Source.readLiteral_fits {access : Access} {v : Source} {value : Literal}
    (h : v.readLiteral access = .ok value) :
    Shape.Fits (access.bound v.depth + 1) (.leaf (.literal value)) := by
  rw [Shape.fits_leaf, Leaf.depth_written_literal, Nat.succ_le_succ_iff]
  rcases Source.readChoice_eq_ok h with ⟨name, hname⟩ | ⟨hbound, name, read, access', content, hmem, hread⟩
  · simp only [Literal.variants, List.mem_cons, Prod.mk.injEq, Variant.unit.injEq, reduceCtorEq,
      and_false, or_false, List.not_mem_nil] at hname
    rcases hname with ⟨-, rfl⟩ | ⟨-, rfl⟩ | ⟨-, rfl⟩ <;> exact ⟨trivial, nofun, Nat.zero_le _⟩
  · simp only [Literal.variants, List.mem_cons, Prod.mk.injEq, Variant.holding.injEq, reduceCtorEq,
      and_false, false_or, List.not_mem_nil, or_false] at hmem
    rcases hmem with ⟨-, rfl⟩ | ⟨-, rfl⟩ | ⟨-, rfl⟩ | ⟨-, rfl⟩
    all_goals obtain ⟨x, hx, hread⟩ := bind_eq_ok.mp hread; obtain rfl := Except.ok.inj hread
    · exact ⟨trivial, nofun, hbound⟩
    · exact ⟨readInt64_eq_ok hx, nofun, hbound⟩
    · refine ⟨trivial, ?_, hbound⟩
      rintro _ ⟨⟩
      exact ⟨x, rfl⟩
    · exact ⟨trivial, nofun, hbound⟩

/-- The content of a kind without content fits everywhere. -/
def Content.Fits (content : Content) : Prop :=
  ∀ l, content = .nothing l → ∀ n, Shape.Fits (n + 1) (.leaf l)

theorem Kind.content_fits (kind : Kind) : kind.content.Fits := fun _ h => fits_nothing h

theorem Source.readNothing_eq_ok {access : Access} {l : Leaf} {v : Source} {shape : Shape Struct}
    (h : v.readNothing access l = .ok shape) : shape = .leaf l := by
  cases v with
  | null => exact (Except.ok.inj h).symm
  | list items =>
    obtain ⟨_, -, h⟩ := bind_eq_ok.mp h
    exact absurd h Loaded.fault_ne_ok
  | record entries =>
    obtain ⟨_, -, h⟩ := bind_eq_ok.mp h
    exact absurd h Loaded.fault_ne_ok
  | _ => exact absurd h Loaded.fault_ne_ok

/-- The fields of an object as they stand in its content. -/
def Source.readFieldTable (access : Access) : Source → Loaded (Table String Struct)
  | .record entries => do entries.readNamed (← access.enter) []
  | v => Loaded.fault (v.mismatch "a map")

theorem Entries.readObject_next (access : Access) (key : Except Fault String) (value : Source)
    (rest : Entries) (fields : Option (Table String Struct)) (policy : Option UnknownKeys) :
    (Entries.next key value rest).readObject access fields policy = (do
      let key ← readKey key
      if key = "fields" then
        onlyOnce fields.isSome key
        let table ← (value.readFieldTable access).under (.key key)
        rest.readObject access (some table) policy
      else if key = "unknownKeys" then
        onlyOnce policy.isSome key
        let u ← (value.readUnknownKeys access).under (.key key)
        rest.readObject access fields (some u)
      else
        value.skip.under (.key key)
        rest.readObject access fields policy) := by
  cases value <;> rfl

/-- A key without its colon is no end. -/
theorem Entries.finish_noColon {check : String → Loaded Unit} {key : Except Fault String}
    {fault : Fault} : (Entries.noColon key fault).finish check ≠ .ok () := by
  intro h
  rcases finish_eq_ok h with h | ⟨_, _, _, h⟩ <;> cases h

mutual

/-- **Whatever is loaded fits.** A struct that is loaded is no deeper, when it is written, than the
way of reading allows. -/
theorem Source.readStruct_fits {access : Access} : ∀ (v : Source) {s : Struct}, v.InRange →
    v.readStruct access = .ok s → s.Fits (access.bound v.depth)
  | .list items, s, hrange, h => by
    obtain ⟨access', henter, h⟩ := bind_eq_ok.mp h
    rw [Source.depth, ← Access.bound_enter henter]
    exact Items.readStruct_fits items hrange h
  | .record entries, s, hrange, h => by
    obtain ⟨access', henter, h⟩ := bind_eq_ok.mp h
    rw [Source.depth, ← Access.bound_enter henter]
    exact Entries.readStruct_fits entries hrange (Nat.le_refl _) (by simp) (by simp) h
  | .null, s, _, h => absurd h Loaded.fault_ne_ok
  | .bool b, s, _, h => absurd h Loaded.fault_ne_ok
  | .number n, s, _, h => absurd h Loaded.fault_ne_ok
  | .string content, s, _, h => absurd h Loaded.fault_ne_ok
  | .broken opening reading skipping, s, _, h => absurd h Loaded.fault_ne_ok

/-- A struct from a list. -/
theorem Items.readStruct_fits {access : Access} : ∀ (items : Items) {s : Struct}, items.InRange →
    items.readStruct access = .ok s → s.Fits (access.bound items.depth + 1)
  | .done ending, s, _, h => by
    obtain ⟨_, -, h⟩ := bind_eq_ok.mp h
    exact absurd h Loaded.fault_ne_ok
  | .next first (.done ending), s, hrange, h => by
    obtain ⟨shape, hshape, h⟩ := bind_eq_ok.mp h
    obtain ⟨_, -, h⟩ := bind_eq_ok.mp h
    obtain rfl := Except.ok.inj h
    have hfits := Source.readShape_fits first hrange.1 (Loaded.under_eq_ok.mp hshape)
    obtain ⟨hleft, -⟩ := Items.bound_next_le.mp (Nat.le_refl (access.bound _))
    exact Struct.fits_mk.mpr ⟨hfits.mono hleft, Metadata.fits_empty _⟩
  | .next first (.next second rest), s, hrange, h => by
    obtain ⟨shape, hshape, h⟩ := bind_eq_ok.mp h
    obtain ⟨m, hm, h⟩ := bind_eq_ok.mp h
    obtain ⟨_, -, h⟩ := bind_eq_ok.mp h
    obtain rfl := Except.ok.inj h
    have hfits := Source.readShape_fits first hrange.1 (Loaded.under_eq_ok.mp hshape)
    have hmfits := Source.readMetadata_fits hrange.2.1 (Loaded.under_eq_ok.mp hm)
    obtain ⟨hleft, hright⟩ := Items.bound_next_le.mp (Nat.le_refl (access.bound _))
    exact Struct.fits_mk.mpr ⟨hfits.mono hleft, hmfits.mono (Items.bound_next_le.mp hright).1⟩

/-- A struct from entries, after parts that fit. -/
theorem Entries.readStruct_fits {access : Access} {b : Nat} : ∀ (entries : Entries)
    {shape : Option (Shape Struct)} {m : Option Metadata} {s : Struct}, entries.InRange →
      access.bound entries.depth ≤ b → (∀ x, shape = some x → x.Fits b) →
      (∀ x, m = some x → x.Fits b) → entries.readStruct access shape m = .ok s → s.Fits (b + 1)
  | .next key value rest, shape, m, s, hrange, hb, hshape, hm, h => by
    obtain ⟨name, -, h⟩ := bind_eq_ok.mp h
    obtain ⟨hleft, hright⟩ := Entries.bound_next_le.mp hb
    split at h
    · obtain ⟨_, -, h⟩ := bind_eq_ok.mp h
      obtain ⟨x, hx, h⟩ := bind_eq_ok.mp h
      have hfits := Source.readShape_fits value hrange.1 (Loaded.under_eq_ok.mp hx)
      refine Entries.readStruct_fits rest hrange.2 hright ?_ hm h
      rintro _ ⟨⟩
      exact hfits.mono hleft
    · split at h
      · obtain ⟨_, -, h⟩ := bind_eq_ok.mp h
        obtain ⟨x, hx, h⟩ := bind_eq_ok.mp h
        have hfits := Source.readMetadata_fits hrange.1 (Loaded.under_eq_ok.mp hx)
        refine Entries.readStruct_fits rest hrange.2 hright hshape ?_ h
        rintro _ ⟨⟩
        exact hfits.mono hleft
      · obtain ⟨_, -, h⟩ := bind_eq_ok.mp h
        exact Entries.readStruct_fits rest hrange.2 hright hshape hm h
  | .done ending, some x, m, s, _, _, hshape, hm, h => by
    obtain ⟨_, -, h⟩ := bind_eq_ok.mp h
    obtain rfl := Except.ok.inj h
    refine Struct.fits_mk.mpr ⟨hshape x rfl, ?_⟩
    cases m with
    | none => exact Metadata.fits_empty b
    | some y => exact hm y rfl
  | .done ending, none, m, s, _, _, _, _, h => by
    obtain ⟨_, -, h⟩ := bind_eq_ok.mp h
    exact absurd h Loaded.fault_ne_ok
  | .brokenKey reading skipping, shape, m, s, _, _, _, _, h => by cases h
  | .notKey, shape, m, s, _, _, _, _, h => by cases h
  | .noColon key fault, shape, m, s, _, _, _, _, h => by
    obtain ⟨_, hfinish, -⟩ := bind_eq_ok.mp h
    exact absurd hfinish Entries.finish_noColon

/-- A shape. -/
theorem Source.readShape_fits {access : Access} : ∀ (v : Source) {shape : Shape Struct}, v.InRange →
    v.readShape access = .ok shape → shape.Fits (access.bound v.depth)
  | .list items, shape, hrange, h => by
    obtain ⟨access', henter, h⟩ := bind_eq_ok.mp h
    rw [Source.depth, ← Access.bound_enter henter]
    exact Items.readShape_fits items hrange h
  | .record entries, shape, hrange, h => by
    obtain ⟨access', henter, h⟩ := bind_eq_ok.mp h
    rw [Source.depth, ← Access.bound_enter henter]
    exact Entries.readShape_fits entries hrange (Nat.le_refl _) h
  | .null, shape, _, h => absurd h Loaded.fault_ne_ok
  | .bool b, shape, _, h => absurd h Loaded.fault_ne_ok
  | .number n, shape, _, h => absurd h Loaded.fault_ne_ok
  | .string content, shape, _, h => absurd h Loaded.fault_ne_ok
  | .broken opening reading skipping, shape, _, h => absurd h Loaded.fault_ne_ok

/-- A shape from a list. -/
theorem Items.readShape_fits {access : Access} : ∀ (items : Items) {shape : Shape Struct},
    items.InRange → items.readShape access = .ok shape → shape.Fits (access.bound items.depth + 1)
  | .done ending, shape, _, h => by
    obtain ⟨_, -, h⟩ := bind_eq_ok.mp h
    exact absurd h Loaded.fault_ne_ok
  | .next first (.done ending), shape, _, h => by
    obtain ⟨_, -, h⟩ := bind_eq_ok.mp h
    obtain ⟨_, -, h⟩ := bind_eq_ok.mp h
    exact absurd h Loaded.fault_ne_ok
  | .next first (.next second rest), shape, hrange, h => by
    obtain ⟨kind, -, h⟩ := bind_eq_ok.mp h
    obtain ⟨x, hx, h⟩ := bind_eq_ok.mp h
    obtain ⟨_, -, h⟩ := bind_eq_ok.mp h
    obtain rfl := Except.ok.inj h
    have hfits := Source.readContent_fits kind.content second hrange.2.1 kind.content_fits
      (Loaded.under_eq_ok.mp hx)
    obtain ⟨-, hright⟩ := Items.bound_next_le.mp (Nat.le_refl (access.bound _))
    exact hfits.mono (Nat.succ_le_succ (Items.bound_next_le.mp hright).1)

/-- A shape from entries, none of which has been its kind or its content. -/
theorem Entries.readShape_fits {access : Access} {b : Nat} : ∀ (entries : Entries)
    {shape : Shape Struct}, entries.InRange → access.bound entries.depth ≤ b →
      entries.readShape access = .ok shape → shape.Fits (b + 1)
  | .next key value rest, shape, hrange, hb, h => by
    obtain ⟨name, -, h⟩ := bind_eq_ok.mp h
    obtain ⟨hleft, hright⟩ := Entries.bound_next_le.mp hb
    split at h
    · obtain ⟨kind, -, h⟩ := bind_eq_ok.mp h
      exact Entries.readContent_fits kind.content rest hrange.2 hright kind.content_fits h
    · split at h
      · -- The content is read a second time without a limit, but the first time it kept to one.
        obtain ⟨w, hw, h⟩ := bind_eq_ok.mp h
        obtain ⟨⟨kind, later⟩, -, h⟩ := bind_eq_ok.mp h
        obtain ⟨x, hx, h⟩ := bind_eq_ok.mp h
        obtain ⟨_, -, h⟩ := bind_eq_ok.mp h
        obtain rfl := Except.ok.inj h
        have hbound := (Source.json_fits value hrange.1 (Loaded.under_eq_ok.mp hw)).2
        have hfits := Source.readContent_fits kind.content value hrange.1 kind.content_fits
          (Loaded.withoutPath_eq_ok.mp hx)
        exact hfits.mono (Nat.succ_le_succ (Nat.le_trans hbound hleft))
      · obtain ⟨_, -, h⟩ := bind_eq_ok.mp h
        exact Entries.readShape_fits rest hrange.2 hright h
  | .done ending, shape, _, _, h => by
    obtain ⟨_, -, h⟩ := bind_eq_ok.mp h
    exact absurd h Loaded.fault_ne_ok
  | .brokenKey reading skipping, shape, _, _, h => by cases h
  | .notKey, shape, _, _, h => by cases h
  | .noColon key fault, shape, _, _, h => by
    obtain ⟨_, hfinish, -⟩ := bind_eq_ok.mp h
    exact absurd hfinish Entries.finish_noColon

/-- A shape from the entries after its kind. -/
theorem Entries.readContent_fits {access : Access} {b : Nat} (content : Content) :
    ∀ (entries : Entries) {shape : Shape Struct}, entries.InRange →
      access.bound entries.depth ≤ b → content.Fits →
      entries.readContent access content = .ok shape → shape.Fits (b + 1)
  | .next key value rest, shape, hrange, hb, hcontent, h => by
    obtain ⟨name, -, h⟩ := bind_eq_ok.mp h
    obtain ⟨_, -, h⟩ := bind_eq_ok.mp h
    obtain ⟨hleft, hright⟩ := Entries.bound_next_le.mp hb
    split at h
    · obtain ⟨x, hx, h⟩ := bind_eq_ok.mp h
      obtain ⟨_, -, h⟩ := bind_eq_ok.mp h
      obtain rfl := Except.ok.inj h
      have hfits := Source.readContent_fits content value hrange.1 hcontent
        (Loaded.under_eq_ok.mp hx)
      exact hfits.mono (Nat.succ_le_succ hleft)
    · obtain ⟨_, -, h⟩ := bind_eq_ok.mp h
      exact Entries.readContent_fits content rest hrange.2 hright hcontent h
  | .done ending, shape, _, _, hcontent, h => by
    obtain ⟨_, -, h⟩ := bind_eq_ok.mp h
    cases content with
    | nothing l =>
      obtain rfl := Except.ok.inj h
      exact hcontent l rfl b
    | _ => exact absurd h Loaded.fault_ne_ok
  | .brokenKey reading skipping, shape, _, _, _, h => by cases h
  | .notKey, shape, _, _, _, h => by cases h
  | .noColon key fault, shape, _, _, _, h => by
    obtain ⟨_, hfinish, -⟩ := bind_eq_ok.mp h
    exact absurd hfinish Entries.finish_noColon

/-- A shape from its content. -/
theorem Source.readContent_fits {access : Access} : ∀ (content : Content) (v : Source)
    {shape : Shape Struct}, v.InRange → content.Fits → v.readContent access content = .ok shape →
      shape.Fits (access.bound v.depth + 1)
  | .nothing l, v, shape, _, hcontent, h => by
    rw [Source.readContent_nothing] at h
    obtain rfl := Source.readNothing_eq_ok h
    exact hcontent l rfl _
  | .literal, v, shape, _, _, h => by
    rw [Source.readContent_literal] at h
    obtain ⟨value, hvalue, h⟩ := bind_eq_ok.mp h
    obtain rfl := Except.ok.inj h
    exact Source.readLiteral_fits hvalue
  | .struct w, .list items, shape, hrange, _, h => by
    obtain ⟨access', henter, h⟩ := bind_eq_ok.mp h
    obtain ⟨inner, hinner, h⟩ := bind_eq_ok.mp h
    obtain rfl := Except.ok.inj h
    rw [Source.depth, ← Access.bound_enter henter]
    exact Shape.fits_wrapper.mpr ⟨_, rfl, Items.readStruct_fits items hrange hinner⟩
  | .struct w, .record entries, shape, hrange, _, h => by
    obtain ⟨access', henter, h⟩ := bind_eq_ok.mp h
    obtain ⟨inner, hinner, h⟩ := bind_eq_ok.mp h
    obtain rfl := Except.ok.inj h
    rw [Source.depth, ← Access.bound_enter henter]
    exact Shape.fits_wrapper.mpr ⟨_, rfl, Entries.readStruct_fits entries hrange (Nat.le_refl _)
      (by simp) (by simp) hinner⟩
  | .structs k, .list items, shape, hrange, _, h => by
    obtain ⟨access', henter, h⟩ := bind_eq_ok.mp h
    obtain ⟨ss, hss, h⟩ := bind_eq_ok.mp h
    obtain rfl := Except.ok.inj h
    rw [Source.depth, ← Access.bound_enter henter]
    exact Shape.fits_series.mpr ⟨_, rfl, Items.readStructs_fit items hrange hss⟩
  | .fields, .record entries, shape, hrange, _, h => by
    obtain ⟨access', henter, h⟩ := bind_eq_ok.mp h
    rw [Source.depth, ← Access.bound_enter henter]
    exact Entries.readObject_fits entries hrange (Nat.le_refl _) (by simp) h
  | .fields, .list items, shape, _, _, h => by
    obtain ⟨_, -, h⟩ := bind_eq_ok.mp h
    exact absurd h Loaded.fault_ne_ok
  | .struct w, .null, shape, _, _, h
  | .struct w, .bool b, shape, _, _, h
  | .struct w, .number n, shape, _, _, h
  | .struct w, .string content, shape, _, _, h
  | .struct w, .broken opening reading skipping, shape, _, _, h
  | .structs k, .null, shape, _, _, h
  | .structs k, .bool b, shape, _, _, h
  | .structs k, .number n, shape, _, _, h
  | .structs k, .string content, shape, _, _, h
  | .structs k, .record entries, shape, _, _, h
  | .structs k, .broken opening reading skipping, shape, _, _, h
  | .fields, .null, shape, _, _, h
  | .fields, .bool b, shape, _, _, h
  | .fields, .number n, shape, _, _, h
  | .fields, .string content, shape, _, _, h
  | .fields, .broken opening reading skipping, shape, _, _, h => absurd h Loaded.fault_ne_ok

/-- The structs of a list. -/
theorem Items.readStructs_fit {access : Access} : ∀ (items : Items) {position : Nat}
    {ss : List Struct}, items.InRange → items.readStructs access position = .ok ss →
      ∀ s ∈ ss, s.Fits (access.bound items.depth)
  | .done ending, position, ss, _, h => by
    obtain ⟨_, -, h⟩ := bind_eq_ok.mp h
    obtain rfl := Except.ok.inj h
    simp
  | .next value rest, position, ss, hrange, h => by
    obtain ⟨s, hs, h⟩ := bind_eq_ok.mp h
    obtain ⟨ss', hss, h⟩ := bind_eq_ok.mp h
    obtain rfl := Except.ok.inj h
    have hfirst := Source.readStruct_fits value hrange.1 (Loaded.under_eq_ok.mp hs)
    have hrest := Items.readStructs_fit rest hrange.2 hss
    obtain ⟨hleft, hright⟩ := Items.bound_next_le.mp (Nat.le_refl (access.bound _))
    exact List.forall_mem_cons.mpr ⟨hfirst.mono hleft, fun t ht => (hrest t ht).mono hright⟩

/-- An object from entries, after fields that fit. -/
theorem Entries.readObject_fits {access : Access} {b : Nat} : ∀ (entries : Entries)
    {fields : Option (Table String Struct)} {policy : Option UnknownKeys} {shape : Shape Struct},
      entries.InRange → access.bound entries.depth ≤ b →
      (∀ table, fields = some table → ∀ u, Shape.Fits (b + 2) (.object table u)) →
      entries.readObject access fields policy = .ok shape → shape.Fits (b + 2)
  | .next key value rest, fields, policy, shape, hrange, hb, hfields, h => by
    rw [Entries.readObject_next] at h
    obtain ⟨name, -, h⟩ := bind_eq_ok.mp h
    obtain ⟨hleft, hright⟩ := Entries.bound_next_le.mp hb
    split at h
    · obtain ⟨_, -, h⟩ := bind_eq_ok.mp h
      obtain ⟨table, htable, h⟩ := bind_eq_ok.mp h
      refine Entries.readObject_fits rest hrange.2 hright ?_ h
      rintro _ ⟨⟩ u
      obtain ⟨d, hd, hdistinct, hfits⟩ :=
        Source.readFieldTable_fits value hrange.1 (Loaded.under_eq_ok.mp htable)
      have hle : d + 3 ≤ b + 2 := by
        rw [hd] at hleft
        exact Nat.succ_le_succ (Nat.succ_le_succ hleft)
      exact (Shape.fits_object.mpr ⟨d, rfl, hdistinct, hfits⟩).mono hle
    · split at h
      · obtain ⟨_, -, h⟩ := bind_eq_ok.mp h
        obtain ⟨u, -, h⟩ := bind_eq_ok.mp h
        exact Entries.readObject_fits rest hrange.2 hright hfields h
      · obtain ⟨_, -, h⟩ := bind_eq_ok.mp h
        exact Entries.readObject_fits rest hrange.2 hright hfields h
  | .done ending, some table, policy, shape, _, _, hfields, h => by
    obtain ⟨_, -, h⟩ := bind_eq_ok.mp h
    obtain rfl := Except.ok.inj h
    exact hfields table rfl _
  | .done ending, none, policy, shape, _, _, _, h => by
    obtain ⟨_, -, h⟩ := bind_eq_ok.mp h
    exact absurd h Loaded.fault_ne_ok
  | .brokenKey reading skipping, fields, policy, shape, _, _, _, h => by cases h
  | .notKey, fields, policy, shape, _, _, _, h => by cases h
  | .noColon key fault, fields, policy, shape, _, _, _, h => by
    obtain ⟨_, hfinish, -⟩ := bind_eq_ok.mp h
    exact absurd hfinish Entries.finish_noColon

/-- The fields of an object. -/
theorem Source.readFieldTable_fits {access : Access} : ∀ (v : Source) {table : Table String Struct},
    v.InRange → v.readFieldTable access = .ok table →
      ∃ d, access.bound v.depth = d + 1 ∧ Table.Distinct table ∧ ∀ field ∈ table, field.2.Fits d
  | .record entries, table, hrange, h => by
    obtain ⟨access', henter, h⟩ := bind_eq_ok.mp h
    have hempty : Table.Distinct ([] : Table String Struct) := List.nodup_nil
    obtain ⟨hdistinct, hfits⟩ := Entries.readNamed_fit entries hrange (Nat.le_refl _) hempty
      (by simp) h
    exact ⟨_, (Access.bound_enter henter _).symm, hdistinct, hfits⟩
  | .null, table, _, h => absurd h Loaded.fault_ne_ok
  | .bool b, table, _, h => absurd h Loaded.fault_ne_ok
  | .number n, table, _, h => absurd h Loaded.fault_ne_ok
  | .string content, table, _, h => absurd h Loaded.fault_ne_ok
  | .list items, table, _, h => absurd h Loaded.fault_ne_ok
  | .broken opening reading skipping, table, _, h => absurd h Loaded.fault_ne_ok

/-- Named structs, which are stored in a table with structs that fit. -/
theorem Entries.readNamed_fit {access : Access} {b : Nat} : ∀ (entries : Entries)
    {table out : Table String Struct}, entries.InRange → access.bound entries.depth ≤ b →
      Table.Distinct table → (∀ field ∈ table, field.2.Fits b) →
      entries.readNamed access table = .ok out →
      Table.Distinct out ∧ ∀ field ∈ out, field.2.Fits b
  | .next key value rest, table, out, hrange, hb, hdistinct, htable, h => by
    obtain ⟨name, -, h⟩ := bind_eq_ok.mp h
    obtain ⟨s, hs, h⟩ := bind_eq_ok.mp h
    have hfits := Source.readStruct_fits value hrange.1 (Loaded.under_eq_ok.mp hs)
    obtain ⟨hleft, hright⟩ := Entries.bound_next_le.mp hb
    refine Entries.readNamed_fit rest hrange.2 hright (Table.distinct_insert hdistinct) ?_ h
    intro field hfield
    rcases Table.mem_insert hfield with rfl | hfield
    · exact hfits.mono hleft
    · exact htable field hfield
  | .done ending, table, out, _, _, hdistinct, htable, h => by
    obtain ⟨_, -, h⟩ := bind_eq_ok.mp h
    obtain rfl := Except.ok.inj h
    exact ⟨hdistinct, htable⟩
  | .brokenKey reading skipping, table, out, _, _, _, _, h => by cases h
  | .notKey, table, out, _, _, _, _, h => by cases h
  | .noColon key fault, table, out, _, _, _, _, h => by
    obtain ⟨_, hfinish, -⟩ := bind_eq_ok.mp h
    exact absurd hfinish Entries.finish_noColon

end

end ShapeSchema
