import ShapeSchema.Load.Document
import ShapeSchema.Proofs.Load.Places

/-!
# Paths of load errors

Whatever is wrong with the data of a document that stands in full, the path of the error locates it.
Each reader is followed through its loop: what is read of an item or an entry goes one step further
in, and what is said of the list or the object itself is said at its own place.
-/

namespace ShapeSchema

open Loaded (Blames)

/-! ## The parts of all readers -/

section

variable {α : Type} {access : Access} {P : List Step → Prop} {value : Source} {items : Items}
  {entries : Entries} {key : Except Fault String}

theorem Source.blames_mismatch {expected : String} :
    Blames value.Locates (Loaded.fault (value.mismatch expected) : Loaded α) :=
  .fault (.here _)

theorem Source.skip_blames (h : value.Sound) : Blames P value.skip := by
  rw [skip, show value.skipFault? = none from whole_of_sound value h]
  exact .ok

/-- A list that stands in full ends well. -/
theorem Ending.closeList_blames {ending : Ending} (h : (Items.done ending).Sound) :
    Blames P ending.closeList := by
  obtain rfl : ending = .closed := h
  exact .ok

theorem Items.finish_blames (taken : Nat) (h : P []) : Blames P (items.finish access taken) := by
  rw [finish.eq_def]
  split
  · exact .ok
  all_goals exact .fault h

/-- So does an object. -/
theorem Entries.finish_blames {check : String → Loaded Unit} (hend : entries.AtEnd)
    (h : entries.Sound) : Blames P (entries.finish check) := by
  cases entries with
  | done ending =>
    obtain rfl : ending = .closed := h
    exact .ok
  | next key value rest => exact hend.elim
  | _ => exact h.elim

theorem blames_onlyOnce {seen : Bool} {name : String} (h : P []) : Blames P (onlyOnce seen name) := by
  rw [onlyOnce]
  split
  · exact .fault h
  · exact .ok

/-- An item, and the items behind it. -/
theorem Items.blames_item {start : Nat} {r : Loaded α} {β : Type} {f : α → Loaded β}
    (hr : Blames value.Locates r) (hf : ∀ a, r = .ok a → Blames (items.Locates (start + 1)) (f a)) :
    Blames ((Items.next value items).Locates start) (r.under (.index start) >>= f) :=
  .bind (.under (hr.imp fun _ => .first)) fun a ha =>
    (hf a (Loaded.under_eq_ok.mp ha)).imp fun _ => .later

/-- An entry: its key is read first. -/
theorem Entries.blames_entry {β : Type} {f : String → Loaded β} (hkey : SyntaxOnly key)
    (hf : ∀ name, key = .ok name → Blames (Entries.next (.ok name) value entries).Locates (f name)) :
    Blames (Entries.next key value entries).Locates (readKey key >>= f) := by
  refine .bind (.under (.ofContent hkey)) fun name hname => ?_
  obtain rfl := Loaded.ofContent_eq_ok.mp (Loaded.under_eq_ok.mp hname)
  exact hf name rfl

/-- The value of an entry, and the entries behind it. -/
theorem Entries.blames_value {name : String} {r : Loaded α} {β : Type} {f : α → Loaded β}
    (hr : Blames value.Locates r) (hf : ∀ a, r = .ok a → Blames entries.Locates (f a)) :
    Blames (Entries.next (.ok name) value entries).Locates (r.under (.key name) >>= f) :=
  .bind (.under (hr.imp fun _ => .first)) fun a ha =>
    (hf a (Loaded.under_eq_ok.mp ha)).imp fun _ => .later

end

/-! ## Scalars -/

section

variable {access : Access} {v : Source}

theorem Source.readString_blames : Blames v.Locates v.readString := by
  rw [readString.eq_def]
  split
  · exact .ok
  · exact blames_mismatch

theorem Source.readBool_blames : Blames v.Locates v.readBool := by
  rw [readBool.eq_def]
  split
  · exact .ok
  · exact blames_mismatch

theorem Source.readInt64_blames : Blames v.Locates v.readInt64 := by
  rw [readInt64.eq_def]
  split
  · split
    · exact .ok
    · exact .fault (.here _)
  · exact blames_mismatch

theorem Source.readSize_blames : Blames v.Locates v.readSize := by
  rw [readSize.eq_def]
  split
  · split
    · exact .ok
    · exact .fault (.here _)
  · exact blames_mismatch

theorem Source.readDouble_blames : Blames v.Locates v.readDouble := by
  rw [readDouble.eq_def]
  split
  · exact .ok
  · exact blames_mismatch

theorem Source.readUnit_blames : Blames v.Locates (v.readUnit access) := by
  rw [readUnit.eq_def]
  split
  · exact .ok
  · split
    · exact .ok
    · exact blames_mismatch

end

/-! ## Untyped values -/

mutual

/-- As a JSON value every document will do that stands in full. -/
theorem Source.json_blames {access : Access} : ∀ (v : Source) {P : List Step → Prop}, v.Sound →
    Blames P (v.json access)
  | .null, _, _ | .bool _, _, _ => .ok
  | .number _, _, h | .string _, _, h => .bind (.ofContent h) fun _ _ => .ok
  | .list items, _, h => .enter fun _ => .bind (Items.json_blames items 0 h) fun _ _ => .ok
  | .record entries, _, h => .enter fun _ => .bind (Entries.json_blames entries [] h) fun _ _ => .ok
  | .broken _ _ _, _, h => h.elim

theorem Items.json_blames {access : Access} : ∀ (items : Items) (start : Nat) {P : List Step → Prop},
    items.Sound → Blames P (items.json access start)
  | .done _, _, _, h => .bind (Ending.closeList_blames h) fun _ _ => .ok
  | .next value rest, start, _, h => .bind (.under (Source.json_blames value h.1)) fun _ _ =>
    .bind (Items.json_blames rest (start + 1) h.2) fun _ _ => .ok

theorem Entries.json_blames {access : Access} : ∀ (entries : Entries) (table : Table String Json)
    {P : List Step → Prop}, entries.Sound → Blames P (entries.json access table)
  | .next _ value rest, _, _, h => .bind (.under (.ofContent h.1)) fun _ _ =>
    .bind (.under (Source.json_blames value h.2.1)) fun _ _ => Entries.json_blames rest _ h.2.2
  | .done _, _, _, h => .bind (Entries.finish_blames trivial h) fun _ _ => .ok
  | .brokenKey _ _, _, _, h | .notKey, _, _, h | .noColon _ _, _, _, h => h.elim

end

/-! ## Choices and records -/

section

variable {α σ : Type} {access : Access}

/-- The variants with content are known, and errors in their contents locate what they are about. -/
def Variant.Located (variants : List (String × Variant α)) : Prop :=
  ∀ name read, (name, holding read) ∈ variants →
    HasContent name ∧ ∀ access content, content.Sound → Blames content.Locates (read access content)

theorem Variant.named_blames {variants : List (String × Variant α)} {name : String}
    {P : List Step → Prop} (h : P []) : Blames P (Variant.named variants name) := by
  rw [Variant.named]
  split
  · exact .ok
  · exact .fault h

theorem Entries.readChoice_blames {variants : List (String × Variant α)}
    (hvariants : Variant.Located variants) : ∀ entries : Entries, entries.Sound →
      Blames entries.Locates (entries.readChoice access variants)
  | .next key content rest, h => by
    refine .bind (.ofContent h.1) fun name hname => ?_
    obtain rfl := Loaded.ofContent_eq_ok.mp hname
    refine .bind (Variant.named_blames (.inl rfl)) fun variant hvariant => ?_
    have hcontent : Blames content.Locates (variant.withContent access content) := by
      cases variant with
      | unit value => exact .bind Source.readUnit_blames fun _ _ => .ok
      | holding read =>
        exact (hvariants name read (Variant.named_eq_ok hvariant)).2 access content h.2.1
    refine Entries.blames_value hcontent fun _ _ => .bind ?_ fun _ _ => .ok
    rw [finishChoice.eq_def]
    split
    · exact .ok
    · exact .fault (.inl rfl)
    · exact .fault (.inl rfl)
  | .done ending, h => by
    obtain rfl : ending = .closed := h
    exact .fault (.inl rfl)
  | .brokenKey _ _, h | .notKey, h | .noColon _ _, h => h.elim

/-- A bare name locates its variant if that has content; if not, there is nothing wrong with it. -/
theorem Variant.bare_blames {variants : List (String × Variant α)}
    (hvariants : Variant.Located variants) {name : String} {variant : Variant α}
    (h : (name, variant) ∈ variants) :
    Blames (Source.string (.ok name)).Locates (variant.bare.under (.key name)) := by
  cases variant with
  | unit value => exact .under .ok
  | holding read => exact .under (.fault (.bare (hvariants name read h).1))

theorem Source.readChoice_blames {variants : List (String × Variant α)}
    (hvariants : Variant.Located variants) : ∀ v : Source, v.Sound →
      Blames v.Locates (v.readChoice access variants)
  | .string content, h => by
    refine .bind (.ofContent h) fun name hname => ?_
    obtain rfl := Loaded.ofContent_eq_ok.mp hname
    exact .bind (Variant.named_blames (.here _)) fun variant hvariant =>
      Variant.bare_blames hvariants (Variant.named_eq_ok hvariant)
  | .record entries, h => by
    cases access with
    | streamed room =>
      exact .enter fun _ => (Entries.readChoice_blames hvariants entries h).imp fun _ => .record
    | buffered =>
      simp only [readChoice]
      split
      · exact (Entries.readChoice_blames hvariants entries h).imp fun _ => .record
      · exact .fault (.here _)
  | .null, _ | .bool _, _ | .number _, _ | .list _, _ => by cases access <;> exact .fault (.here _)
  | .broken _ _ _, h => h.elim

theorem Source.readVariant_blames {variants : List (String × Variant α)} {v : Source} (h : v.Sound) :
    Blames v.Locates (v.readVariant access variants) := by
  rw [readVariant.eq_def]
  split
  · exact .bind (.ofContent h) fun _ _ => Variant.named_blames (.here _)
  · split
    · split
      · exact .ok
      · exact .fault (.here _)
    · exact blames_mismatch
  · exact blames_mismatch

/-- Errors in the values of these fields locate what they are about. -/
def Field.Located (access : Access) (fields : List (Field σ)) : Prop :=
  ∀ f ∈ fields, ∀ (v : Source) s, v.Sound → Blames v.Locates (f.read access v s)

/-- A field that stands twice is a fault of the object; a name that is no field, one of the value under
this name. -/
theorem Field.look_blames {fields : List (Field σ)} {refuse : Bool} {s : σ} {name : String}
    {value : Source} {rest : Entries} :
    Blames (Entries.next (.ok name) value rest).Locates (Field.look fields refuse s name) := by
  rw [look]
  split
  · exact .bind (blames_onlyOnce (.inl rfl)) fun _ _ => .ok
  · split
    · exact .under (.fault (.first (.here _)))
    · exact .ok

theorem Entries.readFields_blames {fields : List (Field σ)} {refuse : Bool}
    (hfields : Field.Located access fields) : ∀ (entries : Entries) (s : σ), entries.Sound →
      Blames entries.Locates (entries.readFields access fields refuse s)
  | .next key value rest, s, h => by
    refine Entries.blames_entry h.1 fun name _ => .bind Field.look_blames fun field? hlook => ?_
    cases field? with
    | some f =>
      exact Entries.blames_value (hfields f (Field.mem_of_look hlook) value s h.2.1) fun _ _ =>
        readFields_blames hfields rest _ h.2.2
    | none =>
      exact Entries.blames_value (value.skip_blames h.2.1) fun _ _ =>
        readFields_blames hfields rest s h.2.2
  | .done _, _, h => .bind (Entries.finish_blames trivial h) fun _ _ => .ok
  | .brokenKey _ _, _, h | .notKey, _, h | .noColon _ _, _, h => h.elim

end

/-! ## Metadata -/

section

variable {access : Access}

theorem Deprecation.variants_located : Variant.Located variants := by
  intro name read h
  refine ⟨.inr ⟨read, h⟩, fun access content _ => ?_⟩
  simp only [variants, List.mem_cons, Prod.mk.injEq, Variant.holding.injEq, reduceCtorEq, and_false,
    false_or, List.not_mem_nil, or_false] at h
  obtain ⟨-, rfl⟩ := h
  exact .bind Source.readString_blames fun _ _ => .ok

theorem Source.readDeprecation?_blames {v : Source} (h : v.Sound) :
    Blames v.Locates (v.readDeprecation? access) := by
  rw [readDeprecation?.eq_def]
  split
  · exact .ok
  · exact .fault (.here _)
  · exact .bind (Source.readChoice_blames Deprecation.variants_located v h) fun _ _ => .ok

theorem Source.readDefault?_blames {v : Source} (h : v.Sound) :
    Blames v.Locates (v.readDefault? access) := by
  rw [readDefault?.eq_def]
  split
  · exact .ok
  · exact .bind (Source.json_blames v h) fun _ _ => .ok

/-- A key that is no id locates the value under it. -/
theorem MetadataId.load_blames {name : String} {value : Source} {rest : Entries} :
    Blames (Entries.next (.ok name) value rest).Locates ((MetadataId.load name).under (.key name)) := by
  rw [MetadataId.load]
  split
  · exact .under .ok
  · exact .under (.fault (.first (.here _)))

theorem Entries.annotations_blames : ∀ (entries : Entries) (table : Table MetadataId Json),
    entries.Sound → Blames entries.Locates (entries.annotations access table)
  | .next _ value rest, _, h => Entries.blames_entry h.1 fun _ _ =>
    .bind MetadataId.load_blames fun _ _ =>
      Entries.blames_value (Source.json_blames value h.2.1) fun _ _ => annotations_blames rest _ h.2.2
  | .done _, _, h => .bind (Entries.finish_blames trivial h) fun _ _ => .ok
  | .brokenKey _ _, _, h | .notKey, _, h | .noColon _ _, _, h => h.elim

theorem Source.readAnnotations_blames {v : Source} (h : v.Sound) :
    Blames v.Locates (v.readAnnotations access) := by
  cases v with
  | record entries =>
    exact .enter fun _ => (Entries.annotations_blames entries [] h).imp fun _ => .record
  | _ => exact blames_mismatch

theorem MetadataParts.fields_located : Field.Located access MetadataParts.fields := by
  intro f hf v parts h
  simp only [fields, List.mem_cons, List.not_mem_nil, or_false] at hf
  rcases hf with rfl | rfl | rfl
  · exact .bind (Source.readDeprecation?_blames h) fun _ _ => .ok
  · exact .bind (Source.readDefault?_blames h) fun _ _ => .ok
  · exact .bind (Source.readAnnotations_blames h) fun _ _ => .ok

theorem Items.readParts_blames : ∀ (fields : List (Field MetadataParts)) (taken : Nat) (items : Items)
    (parts : MetadataParts), Field.Located access fields → items.Sound →
      Blames (items.Locates taken) (items.readParts access fields taken parts)
  | [], taken, _, _, _, _ => .bind (Items.finish_blames taken (.inl rfl)) fun _ _ => .ok
  | _ :: _, _, .done _, _, _, h => .bind (Ending.closeList_blames h) fun _ _ => .ok
  | f :: fields, taken, .next value rest, parts, hfields, h =>
    Items.blames_item (hfields f (by simp) value parts h.1) fun parts _ =>
      readParts_blames fields (taken + 1) rest parts (fun g hg => hfields g (by simp [hg])) h.2

theorem Source.readMetadata_blames {v : Source} (h : v.Sound) :
    Blames v.Locates (v.readMetadata access) := by
  cases v with
  | list items =>
    exact .enter fun _ => .bind ((Items.readParts_blames _ 0 items {} MetadataParts.fields_located
      h).imp fun _ => .list) fun _ _ => .ok
  | record entries =>
    exact .enter fun _ => .bind ((Entries.readFields_blames MetadataParts.fields_located entries {}
      h).imp fun _ => .record) fun _ _ => .ok
  | _ => exact blames_mismatch

end

/-! ## Structs -/

section

variable {access : Access}

theorem Literal.variants_located : Variant.Located variants := by
  intro name read h
  refine ⟨.inl ⟨read, h⟩, fun access content _ => ?_⟩
  simp only [variants, List.mem_cons, Prod.mk.injEq, Variant.holding.injEq, reduceCtorEq, and_false,
    false_or, List.not_mem_nil, or_false] at h
  rcases h with ⟨-, rfl⟩ | ⟨-, rfl⟩ | ⟨-, rfl⟩ | ⟨-, rfl⟩
  · exact .bind Source.readString_blames fun _ _ => .ok
  · exact .bind Source.readInt64_blames fun _ _ => .ok
  · exact .bind Source.readDouble_blames fun _ _ => .ok
  · exact .bind Source.readBool_blames fun _ _ => .ok

theorem UnknownKeys.variants_located : Variant.Located variants := by
  intro name read h
  obtain ⟨policy, -, h⟩ := List.mem_map.mp h
  cases h

theorem Kind.variants_located : Variant.Located variants := by
  intro name read h
  obtain ⟨kind, -, h⟩ := List.mem_map.mp h
  cases h

theorem Source.readKindItem_blames {v : Source} (h : v.Sound) :
    Blames v.Locates (v.readKindItem access) := by
  refine .bind (readVariant_blames h) fun variant _ => ?_
  cases variant with
  | unit kind => exact .ok
  | holding read => exact .fault (.here _)

theorem Source.refuse_blames {α : Type} (access : Access) {expected : String} {v : Source} :
    Blames v.Locates (v.refuse access expected : Loaded α) := by
  rw [refuse.eq_def]
  split
  · exact .enter fun _ => blames_mismatch
  · exact .enter fun _ => blames_mismatch
  · exact blames_mismatch

theorem Source.readNothing_blames {leaf : Leaf} {v : Source} :
    Blames v.Locates (v.readNothing access leaf) := by
  rw [readNothing.eq_def]
  split
  · exact .ok
  · exact refuse_blames access

theorem Entries.noMore_blames : ∀ entries : Entries, entries.Sound →
    Blames entries.Locates entries.noMore
  | .next _ value rest, h => Entries.blames_entry h.1 fun _ _ =>
    .bind (blames_onlyOnce (.inl rfl)) fun _ _ =>
      Entries.blames_value (value.skip_blames h.2.1) fun _ _ => noMore_blames rest h.2.2
  | .done _, h => Entries.finish_blames trivial h
  | .brokenKey _ _, h | .notKey, h | .noColon _ _, h => h.elim

/-- What follows the kind is a part of the entries. -/
theorem Entries.laterKind_blames (access : Access) : ∀ entries : Entries, entries.Sound →
    Blames entries.Locates (entries.laterKind access) ∧
      ∀ kind rest, entries.laterKind access = .ok (kind, rest) →
        rest.Sound ∧ ∀ path, rest.Locates path → entries.Locates path
  | .next key value rest, h => by
    obtain ⟨hblames, hrest⟩ := laterKind_blames access rest h.2.2
    constructor
    · refine Entries.blames_entry h.1 fun name _ => .bind (blames_onlyOnce (.inl rfl)) fun _ _ => ?_
      split
      · exact Entries.blames_value (Source.readChoice_blames Kind.variants_located value h.2.1)
          fun _ _ => .ok
      · exact Entries.blames_value (value.skip_blames h.2.1) fun _ _ => hblames
    · intro kind after hok
      obtain ⟨name, -, hok⟩ := bind_eq_ok.mp hok
      obtain ⟨_, -, hok⟩ := bind_eq_ok.mp hok
      split at hok
      · obtain ⟨k, -, hok⟩ := bind_eq_ok.mp hok
        obtain ⟨rfl, rfl⟩ := Prod.mk.inj (Except.ok.inj hok)
        exact ⟨h.2.2, fun _ => .later⟩
      · obtain ⟨_, -, hok⟩ := bind_eq_ok.mp hok
        obtain ⟨hsound, hlocates⟩ := hrest kind after hok
        exact ⟨hsound, fun path hpath => .later (hlocates path hpath)⟩
  | .done _, h => by
    refine ⟨.bind (Entries.finish_blames trivial h) fun _ _ => .fault (.inl rfl), fun _ _ hok => ?_⟩
    obtain ⟨_, -, hok⟩ := bind_eq_ok.mp hok
    exact absurd hok Loaded.fault_ne_ok
  | .brokenKey _ _, h | .notKey, h | .noColon _ _, h => h.elim

mutual

theorem Source.readStruct_blames {access : Access} :
    ∀ v : Source, v.Sound → Blames v.Locates (v.readStruct access)
  | .list items, h => .enter fun _ => (Items.readStruct_blames items h).imp fun _ => .list
  | .record entries, h => .enter fun _ =>
    (Entries.readStruct_blames entries none none h).imp fun _ => .record
  | .null, _ | .bool _, _ | .number _, _ | .string _, _ => Source.blames_mismatch
  | .broken _ _ _, h => h.elim

theorem Items.readStruct_blames {access : Access} :
    ∀ items : Items, items.Sound → Blames (items.Locates 0) (items.readStruct access)
  | .done _, h => .bind (Ending.closeList_blames h) fun _ _ => .fault (.inl rfl)
  | .next first (.done _), h => Items.blames_item (Source.readShape_blames first h.1) fun _ _ =>
    .bind (Ending.closeList_blames h.2) fun _ _ => .ok
  | .next first (.next _ _), h =>
    Items.blames_item (Source.readShape_blames first h.1) fun _ _ =>
      Items.blames_item (Source.readMetadata_blames h.2.1) fun _ _ =>
        .bind (Items.finish_blames 2 (.inl rfl)) fun _ _ => .ok

theorem Entries.readStruct_blames {access : Access} :
    ∀ (entries : Entries) (shape : Option (Shape Struct)) (metadata : Option Metadata),
      entries.Sound → Blames entries.Locates (entries.readStruct access shape metadata)
  | .next _ value rest, shape, metadata, h => by
    refine Entries.blames_entry h.1 fun name _ => ?_
    split
    · exact .bind (blames_onlyOnce (.inl rfl)) fun _ _ =>
        Entries.blames_value (Source.readShape_blames value h.2.1) fun _ _ =>
          Entries.readStruct_blames rest _ metadata h.2.2
    · split
      · exact .bind (blames_onlyOnce (.inl rfl)) fun _ _ =>
          Entries.blames_value (Source.readMetadata_blames h.2.1) fun _ _ =>
            Entries.readStruct_blames rest shape _ h.2.2
      · exact Entries.blames_value (value.skip_blames h.2.1) fun _ _ =>
          Entries.readStruct_blames rest shape metadata h.2.2
  | .done _, some _, _, h => .bind (Entries.finish_blames trivial h) fun _ _ => .ok
  | .done _, none, _, h => .bind (Entries.finish_blames trivial h) fun _ _ => .fault (.inl rfl)
  | .brokenKey _ _, _, _, h | .notKey, _, _, h | .noColon _ _, _, _, h => h.elim

theorem Source.readShape_blames {access : Access} :
    ∀ v : Source, v.Sound → Blames v.Locates (v.readShape access)
  | .list items, h => .enter fun _ => (Items.readShape_blames items h).imp fun _ => .list
  | .record entries, h => .enter fun _ => (Entries.readShape_blames entries h).imp fun _ => .record
  | .null, _ | .bool _, _ | .number _, _ | .string _, _ => Source.blames_mismatch
  | .broken _ _ _, h => h.elim

theorem Items.readShape_blames {access : Access} :
    ∀ items : Items, items.Sound → Blames (items.Locates 0) (items.readShape access)
  | .done _, h => .bind (Ending.closeList_blames h) fun _ _ => .fault (.inl rfl)
  | .next _ (.done _), h => Items.blames_item (Source.readKindItem_blames h.1) fun _ _ =>
    .bind (Ending.closeList_blames h.2) fun _ _ => .fault (.inl rfl)
  | .next _ (.next second _), h =>
    Items.blames_item (Source.readKindItem_blames h.1) fun kind _ =>
      Items.blames_item (Source.readContent_blames kind.content second h.2.1) fun _ _ =>
        .bind (Items.finish_blames 2 (.inl rfl)) fun _ _ => .ok

theorem Entries.readShape_blames {access : Access} :
    ∀ entries : Entries, entries.Sound → Blames entries.Locates (entries.readShape access)
  | .next _ value rest, h => by
    refine Entries.blames_entry h.1 fun name _ => ?_
    split
    · exact Entries.blames_value (Source.readChoice_blames Kind.variants_located value h.2.1)
        fun kind _ => Entries.readContent_blames kind.content rest h.2.2
    · split
      · refine Entries.blames_value (Source.json_blames value h.2.1) fun _ _ => ?_
        obtain ⟨hblames, hlater⟩ := Entries.laterKind_blames access rest h.2.2
        refine .bind hblames fun ⟨kind, later⟩ hok => ?_
        obtain ⟨hsound, hlocates⟩ := hlater kind later hok
        -- The content is read again without its path: what is wrong with it is said of the shape.
        refine .bind (.withoutPath (.inl rfl)) fun _ _ => .bind ?_ fun _ _ => .ok
        exact (later.noMore_blames hsound).imp hlocates
      · exact Entries.blames_value (value.skip_blames h.2.1) fun _ _ =>
          Entries.readShape_blames rest h.2.2
  | .done _, h => .bind (Entries.finish_blames trivial h) fun _ _ => .fault (.inl rfl)
  | .brokenKey _ _, h | .notKey, h | .noColon _ _, h => h.elim

theorem Entries.readContent_blames {access : Access} (content : Content) : ∀ entries : Entries,
    entries.Sound → Blames entries.Locates (entries.readContent access content)
  | .next _ value rest, h => by
    refine Entries.blames_entry h.1 fun name _ => .bind (blames_onlyOnce (.inl rfl)) fun _ _ => ?_
    split
    · exact Entries.blames_value (Source.readContent_blames content value h.2.1) fun _ _ =>
        .bind (rest.noMore_blames h.2.2) fun _ _ => .ok
    · exact Entries.blames_value (value.skip_blames h.2.1) fun _ _ =>
        Entries.readContent_blames content rest h.2.2
  | .done _, h => by
    refine .bind (Entries.finish_blames trivial h) fun _ _ => ?_
    cases content with
    | nothing leaf => exact .ok
    | _ => exact .fault (.inl rfl)
  | .brokenKey _ _, h | .notKey, h | .noColon _ _, h => h.elim

theorem Source.readContent_blames {access : Access} : ∀ (content : Content) (v : Source), v.Sound →
    Blames v.Locates (v.readContent access content)
  | .nothing leaf, v, _ => by
    rw [Source.readContent_nothing]
    exact Source.readNothing_blames
  | .literal, v, h => by
    rw [Source.readContent_literal]
    exact .bind (v.readChoice_blames Literal.variants_located h) fun _ _ => .ok
  | .struct _, .list items, h => .enter fun _ =>
    .bind ((Items.readStruct_blames items h).imp fun _ => .list) fun _ _ => .ok
  | .struct _, .record entries, h => .enter fun _ =>
    .bind ((Entries.readStruct_blames entries none none h).imp fun _ => .record) fun _ _ => .ok
  | .structs _, .list items, h => .enter fun _ =>
    .bind ((Items.readStructs_blames items 0 h).imp fun _ => .list) fun _ _ => .ok
  | .fields, .record entries, h => .enter fun _ =>
    (Entries.readObject_blames entries none none h).imp fun _ => .record
  | .fields, .list _, _ => Source.refuse_blames access
  | .struct _, .null, _ | .struct _, .bool _, _ | .struct _, .number _, _ | .struct _, .string _, _
  | .structs _, .null, _ | .structs _, .bool _, _ | .structs _, .number _, _
  | .structs _, .string _, _ | .structs _, .record _, _ => Source.blames_mismatch
  | .fields, .null, _ | .fields, .bool _, _ | .fields, .number _, _ | .fields, .string _, _ =>
    Source.refuse_blames access
  | .struct _, .broken _ _ _, h | .structs _, .broken _ _ _, h | .fields, .broken _ _ _, h => h.elim

theorem Items.readStructs_blames {access : Access} : ∀ (items : Items) (start : Nat), items.Sound →
    Blames (items.Locates start) (items.readStructs access start)
  | .done _, _, h => .bind (Ending.closeList_blames h) fun _ _ => .ok
  | .next value rest, start, h => Items.blames_item (Source.readStruct_blames value h.1) fun _ _ =>
    .bind (Items.readStructs_blames rest (start + 1) h.2) fun _ _ => .ok

theorem Entries.readObject_blames {access : Access} :
    ∀ (entries : Entries) (fields : Option (Table String Struct)) (policy : Option UnknownKeys),
      entries.Sound → Blames entries.Locates (entries.readObject access fields policy)
  | .next key value rest, fields, policy, h => by
    rw [Entries.readObject_next]
    refine Entries.blames_entry h.1 fun name _ => ?_
    split
    · exact .bind (blames_onlyOnce (.inl rfl)) fun _ _ =>
        Entries.blames_value (Source.readFieldTable_blames value h.2.1) fun _ _ =>
          Entries.readObject_blames rest _ policy h.2.2
    · split
      · exact .bind (blames_onlyOnce (.inl rfl)) fun _ _ =>
          Entries.blames_value (Source.readChoice_blames UnknownKeys.variants_located value h.2.1)
            fun _ _ => Entries.readObject_blames rest fields _ h.2.2
      · exact Entries.blames_value (value.skip_blames h.2.1) fun _ _ =>
          Entries.readObject_blames rest fields policy h.2.2
  | .done _, some _, _, h => .bind (Entries.finish_blames trivial h) fun _ _ => .ok
  | .done _, none, _, h => .bind (Entries.finish_blames trivial h) fun _ _ => .fault (.inl rfl)
  | .brokenKey _ _, _, _, h | .notKey, _, _, h | .noColon _ _, _, _, h => h.elim

theorem Source.readFieldTable_blames {access : Access} :
    ∀ v : Source, v.Sound → Blames v.Locates (v.readFieldTable access)
  | .record entries, h => .enter fun _ => (Entries.readNamed_blames entries [] h).imp fun _ => .record
  | .null, _ | .bool _, _ | .number _, _ | .string _, _ | .list _, _ => Source.blames_mismatch
  | .broken _ _ _, h => h.elim

theorem Entries.readNamed_blames {access : Access} : ∀ (entries : Entries) (table : Table String Struct),
    entries.Sound → Blames entries.Locates (entries.readNamed access table)
  | .next _ value rest, _, h => Entries.blames_entry h.1 fun _ _ =>
    Entries.blames_value (Source.readStruct_blames value h.2.1) fun _ _ =>
      Entries.readNamed_blames rest _ h.2.2
  | .done _, _, h => .bind (Entries.finish_blames trivial h) fun _ _ => .ok
  | .brokenKey _ _, _, h | .notKey, _, h | .noColon _ _, _, h => h.elim

end

end

/-! ## Settings -/

theorem Config.fields_located {access : Access} : Field.Located access Config.fields := by
  intro f hf v s _
  simp only [fields, List.mem_singleton] at hf
  subst hf
  exact .bind Source.readSize_blames fun _ _ => .ok

theorem Source.readConfig_blames {access : Access} : ∀ v : Source, v.Sound →
    Blames v.Locates (v.readConfig access)
  | .list (.done _), h => .enter fun _ => .bind (Ending.closeList_blames h) fun _ _ => .ok
  | .list (.next _ _), _ => .enter fun _ => Blames.imp
    (Items.blames_item Source.readSize_blames fun _ _ =>
      .bind (Items.finish_blames 1 (.inl rfl)) fun _ _ => .ok) fun _ => .list
  | .record entries, h => .enter fun _ => .bind
    ((Entries.readFields_blames Config.fields_located entries none h).imp fun _ => .record)
      fun _ _ => .ok
  | .null, _ | .bool _, _ | .number _, _ | .string _, _ => Source.blames_mismatch
  | .broken _ _ _, h => h.elim

end ShapeSchema
