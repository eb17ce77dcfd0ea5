import ShapeSchema.Proofs.Load.Struct

/-!
# Documents that stand in full

A value stands in full if nothing in it breaks off: every list and every object ends in its closing
bracket. Reading for the first time goes through all of a value, so it succeeds only on values that
stand in full. Reading again need not, but is only done with what has been read already.
-/

namespace ShapeSchema

/-- The value stands in the text in full. -/
def Source.Whole (v : Source) : Prop := v.skipFault? = none

/-- The items stand in the text in full, and so does the end of the list. -/
def Items.Whole (items : Items) : Prop := items.skipFault? = none

/-- The entries stand in the text in full, and so does the end of the object. -/
def Entries.Whole (entries : Entries) : Prop := entries.skipFault? = none

section

variable {value : Source} {items : Items} {entries : Entries} {key : Except Fault String}

theorem orElse_eq_none {α : Type} {a b : Option α} : (a <|> b) = none ↔ a = none ∧ b = none := by
  cases a <;> simp

theorem Items.whole_done {ending : Ending} : (Items.done ending).Whole ↔ ending = .closed := by
  cases ending <;> simp [Whole, skipFault?, Ending.skippedListFault?, Ending.listFault?]

theorem Entries.whole_done {ending : Ending} : (Entries.done ending).Whole ↔ ending = .closed := by
  cases ending <;> simp [Whole, skipFault?, Ending.skippedRecordFault?, Ending.recordFault?]

theorem Items.whole_next : (Items.next value items).Whole ↔ value.Whole ∧ items.Whole :=
  orElse_eq_none

theorem Entries.whole_next : (Entries.next key value entries).Whole ↔ value.Whole ∧ entries.Whole :=
  orElse_eq_none

theorem Items.closed_of_whole {ending : Ending} (h : (Items.next value (.done ending)).Whole) :
    ending = .closed :=
  whole_done.mp (whole_next.mp h).2

theorem Entries.closed_of_whole {ending : Ending}
    (h : (Entries.next key value (.done ending)).Whole) : ending = .closed :=
  whole_done.mp (whole_next.mp h).2

end

/-! ## Outcomes that show something -/

namespace Loaded

section

variable {α β : Type} {P Q : Prop} {r : Loaded α} {f : α → Loaded β}

/-- The outcome is a success only if this holds. -/
def OnlyIf (P : Prop) (r : Loaded α) : Prop := ∀ a, r = .ok a → P

namespace OnlyIf

theorem imp (h : OnlyIf P r) (hPQ : P → Q) : OnlyIf Q r := fun a ha => hPQ (h a ha)

theorem of_holds (h : P) : OnlyIf P r := fun _ _ => h

theorem fault {fault : Fault} : OnlyIf P (Loaded.fault fault : Loaded α) :=
  fun _ h => absurd h fault_ne_ok

theorem under {step : Step} (h : OnlyIf P r) : OnlyIf P (r.under step) :=
  fun a ha => h a (under_eq_ok.mp ha)

/-- What the first step shows is known after the second. -/
theorem first (h : OnlyIf P r) : OnlyIf P (r >>= f) := by
  intro b hb
  obtain ⟨a, ha, -⟩ := bind_eq_ok.mp hb
  exact h a ha

theorem second (h : ∀ a, r = .ok a → OnlyIf P (f a)) : OnlyIf P (r >>= f) := by
  intro b hb
  obtain ⟨a, ha, hb⟩ := bind_eq_ok.mp hb
  exact h a ha b hb

theorem both (hr : OnlyIf P r) (hf : ∀ a, OnlyIf Q (f a)) : OnlyIf (P ∧ Q) (r >>= f) := by
  intro b hb
  obtain ⟨a, ha, hb⟩ := bind_eq_ok.mp hb
  exact ⟨hr a ha, hf a b hb⟩

end OnlyIf

end

end Loaded

open Loaded (OnlyIf)

/-- For the first time. -/
def Access.Streamed : Access → Prop
  | streamed _ => True
  | buffered => False

/-- What is inside a list or an object is read for the first time if that is. -/
theorem Access.Streamed.enter {α : Type} {P : Prop} {access : Access} {f : Access → Loaded α}
    (h : access.Streamed) (hf : ∀ access' : Access, access'.Streamed → OnlyIf P (f access')) :
    OnlyIf P (access.enter >>= f) := by
  cases access with
  | streamed room =>
    match room with
    | 0 | 1 => exact fun _ h => nomatch h
    | room + 2 => exact hf (.streamed (room + 1)) trivial
  | buffered => exact h.elim

/-! ## The parts of all readers -/

section

variable {α β : Type} {access : Access} {key : Except Fault String} {value : Source} {items : Items}
  {entries : Entries} {step : Step} {r : Loaded α} {f : α → Loaded β}

/-- An item, and the items behind it. -/
theorem Items.onlyIf_item (hr : OnlyIf value.Whole r) (hf : ∀ a, OnlyIf items.Whole (f a)) :
    OnlyIf (Items.next value items).Whole (r.under step >>= f) :=
  (hr.under.both hf).imp whole_next.mpr

/-- The value of an entry, and the entries behind it. -/
theorem Entries.onlyIf_value (hr : OnlyIf value.Whole r) (hf : ∀ a, OnlyIf entries.Whole (f a)) :
    OnlyIf (Entries.next key value entries).Whole (r.under step >>= f) :=
  (hr.under.both hf).imp whole_next.mpr

theorem Source.skip_whole (v : Source) : OnlyIf v.Whole v.skip := by
  intro _ h
  rw [skip] at h
  split at h
  · assumption
  · exact absurd h Loaded.fault_ne_ok

theorem Ending.closeList_whole (ending : Ending) :
    OnlyIf (Items.done ending).Whole ending.closeList := by
  cases ending with
  | closed => exact .of_holds rfl
  | _ => exact .fault

theorem Items.finish_whole (taken : Nat) (items : Items) :
    OnlyIf items.Whole (items.finish access taken) := by
  intro _ h
  rw [finish.eq_def] at h
  split at h
  · rfl
  all_goals exact absurd h Loaded.fault_ne_ok

/-- No entry follows. -/
def Entries.AtEnd : Entries → Prop
  | .next _ _ _ => False
  | _ => True

/-- The end of an object that is passed is its closing brace. -/
theorem Entries.finish_whole {check : String → Loaded Unit} {entries : Entries}
    (h : entries.AtEnd) : OnlyIf entries.Whole (entries.finish check) := by
  rintro ⟨⟩ hfinish
  rcases finish_eq_ok hfinish with rfl | ⟨key, value, rest, rfl⟩
  · rfl
  · exact h.elim

/-! ### Scalars -/

theorem Source.readString_whole (v : Source) : OnlyIf v.Whole v.readString := by
  cases v with
  | string content => exact .of_holds rfl
  | _ => exact .fault

theorem Source.readBool_whole (v : Source) : OnlyIf v.Whole v.readBool := by
  cases v with
  | bool b => exact .of_holds rfl
  | _ => exact .fault

theorem Source.readInt64_whole (v : Source) : OnlyIf v.Whole v.readInt64 := by
  cases v with
  | number content => exact .of_holds rfl
  | _ => exact .fault

theorem Source.readDouble_whole (v : Source) : OnlyIf v.Whole v.readDouble := by
  cases v with
  | number content => exact .of_holds rfl
  | _ => exact .fault

theorem Source.readUnit_whole (haccess : access.Streamed) (v : Source) :
    OnlyIf v.Whole (v.readUnit access) := by
  intro _ h
  rw [readUnit.eq_def] at h
  split at h
  · rfl
  · split at h
    · exact haccess.elim
    · exact absurd h Loaded.fault_ne_ok

/-! ### Untyped values -/

mutual

theorem Source.json_whole {access : Access} (haccess : access.Streamed) :
    ∀ v : Source, OnlyIf v.Whole (v.json access)
  | .null | .bool _ | .number _ | .string _ => .of_holds rfl
  | .list items => haccess.enter fun _ haccess' => (Items.json_whole haccess' items 0).first
  | .record entries => haccess.enter fun _ haccess' => (Entries.json_whole haccess' entries []).first
  | .broken _ _ _ => .fault

theorem Items.json_whole {access : Access} (haccess : access.Streamed) :
    ∀ (items : Items) (position : Nat), OnlyIf items.Whole (items.json access position)
  | .done ending, _ => ending.closeList_whole.first
  | .next value rest, position => Items.onlyIf_item (Source.json_whole haccess value) fun _ =>
    (Items.json_whole haccess rest (position + 1)).first

theorem Entries.json_whole {access : Access} (haccess : access.Streamed) :
    ∀ (entries : Entries) (table : Table String Json), OnlyIf entries.Whole (entries.json access table)
  | .next _ value rest, _ =>
    .second fun _ _ => Entries.onlyIf_value (Source.json_whole haccess value) fun _ =>
      Entries.json_whole haccess rest _
  | .done _, _ | .brokenKey _ _, _ | .notKey, _ | .noColon _ _, _ =>
    .first (Entries.finish_whole trivial)

end

end

/-! ## Choices and records -/

section

variable {α σ : Type} {access : Access}

/-- The contents of the variants are only read if they stand in full. -/
def Variant.Careful (variants : List (String × Variant α)) : Prop :=
  ∀ name read, (name, holding read) ∈ variants →
    ∀ access : Access, access.Streamed → ∀ content, OnlyIf content.Whole (read access content)

theorem Entries.readChoice_whole {variants : List (String × Variant α)}
    (hvariants : Variant.Careful variants) (haccess : access.Streamed) :
    ∀ entries : Entries, OnlyIf entries.Whole (entries.readChoice access variants)
  | .next key content rest => by
    refine .second fun name _ => .second fun variant hvariant => ?_
    have hcontent : OnlyIf content.Whole (variant.withContent access content) := by
      cases variant with
      | unit value => exact (content.readUnit_whole haccess).first
      | holding read => exact hvariants name read (Variant.named_eq_ok hvariant) access haccess content
    have hrest : OnlyIf rest.Whole rest.finishChoice := by
      intro _ h
      rw [finishChoice.eq_def] at h
      split at h
      · rfl
      all_goals exact absurd h Loaded.fault_ne_ok
    exact Entries.onlyIf_value hcontent fun _ => hrest.first
  | .noColon _ _ => .second fun _ _ => .second fun _ _ => .fault
  | .brokenKey _ _ => .fault
  | .notKey => .fault
  | .done ending => by cases ending <;> exact .fault

theorem Source.readChoice_whole {variants : List (String × Variant α)}
    (hvariants : Variant.Careful variants) (haccess : access.Streamed) :
    ∀ v : Source, OnlyIf v.Whole (v.readChoice access variants)
  | .null | .bool _ | .number _ | .string _ => .of_holds rfl
  | .record entries => by
    cases access with
    | streamed room =>
      exact haccess.enter fun _ haccess' => Entries.readChoice_whole hvariants haccess' entries
    | buffered => exact haccess.elim
  | .list items => by
    cases access with
    | streamed room => exact .fault
    | buffered => exact haccess.elim
  | .broken opening reading skipping => by cases access <;> cases opening <;> exact .fault

theorem Source.readVariant_whole {variants : List (String × Variant α)} (v : Source) :
    OnlyIf v.Whole (v.readVariant access variants) := by
  cases v with
  | list items => exact .fault
  | record entries => exact .fault
  | broken opening reading skipping => exact .fault
  | _ => exact .of_holds rfl

theorem Entries.readFields_whole {fields : List (Field σ)} {refuse : Bool}
    (hfields : ∀ f ∈ fields, ∀ (v : Source) s, OnlyIf v.Whole (f.read access v s)) :
    ∀ (entries : Entries) (s : σ), OnlyIf entries.Whole (entries.readFields access fields refuse s)
  | .next key value rest, s => by
    refine .second fun name _ => .second fun field? hlook => ?_
    cases field? with
    | some f =>
      have hvalue := hfields f (Field.mem_of_look hlook) value s
      exact Entries.onlyIf_value hvalue fun _ => readFields_whole hfields rest _
    | none => exact Entries.onlyIf_value value.skip_whole fun _ => readFields_whole hfields rest s
  | .done _, _ | .brokenKey _ _, _ | .notKey, _ | .noColon _ _, _ =>
    .first (Entries.finish_whole trivial)

end

/-! ## Metadata -/

section

variable {access : Access}

theorem Deprecation.variants_careful : Variant.Careful variants := by
  intro name read h access _ content
  simp only [variants, List.mem_cons, Prod.mk.injEq, Variant.holding.injEq, reduceCtorEq, and_false,
    false_or, List.not_mem_nil, or_false] at h
  obtain ⟨-, rfl⟩ := h
  exact content.readString_whole.first

theorem Source.readDeprecation?_whole (haccess : access.Streamed) (v : Source) :
    OnlyIf v.Whole (v.readDeprecation? access) := by
  rw [readDeprecation?.eq_def]
  split
  · exact .of_holds rfl
  · exact .fault
  · exact (Source.readChoice_whole Deprecation.variants_careful haccess v).first

theorem Source.readDefault?_whole (haccess : access.Streamed) (v : Source) :
    OnlyIf v.Whole (v.readDefault? access) := by
  rw [readDefault?.eq_def]
  split
  · exact .of_holds rfl
  · exact (Source.json_whole haccess v).first

theorem Entries.annotations_whole (haccess : access.Streamed) :
    ∀ (entries : Entries) (table : Table MetadataId Json),
      OnlyIf entries.Whole (entries.annotations access table)
  | .next _ value rest, _ =>
    .second fun _ _ => .second fun _ _ => Entries.onlyIf_value (Source.json_whole haccess value)
      fun _ => annotations_whole haccess rest _
  | .done _, _ | .brokenKey _ _, _ | .notKey, _ | .noColon _ _, _ =>
    .first (Entries.finish_whole trivial)

theorem Source.readAnnotations_whole (haccess : access.Streamed) (v : Source) :
    OnlyIf v.Whole (v.readAnnotations access) := by
  cases v with
  | record entries =>
    exact haccess.enter fun _ haccess' => Entries.annotations_whole haccess' entries []
  | _ => exact .fault

theorem MetadataParts.fields_careful (haccess : access.Streamed) :
    ∀ f ∈ MetadataParts.fields, ∀ (v : Source) parts, OnlyIf v.Whole (f.read access v parts) := by
  intro f hf v parts
  simp only [fields, List.mem_cons, List.not_mem_nil, or_false] at hf
  rcases hf with rfl | rfl | rfl
  · exact (v.readDeprecation?_whole haccess).first
  · exact (v.readDefault?_whole haccess).first
  · exact (v.readAnnotations_whole haccess).first

theorem Items.readParts_whole : ∀ (fields : List (Field MetadataParts)) (taken : Nat) (items : Items)
    (parts : MetadataParts),
      (∀ f ∈ fields, ∀ (v : Source) parts, OnlyIf v.Whole (f.read access v parts)) →
      OnlyIf items.Whole (items.readParts access fields taken parts)
  | [], taken, items, _, _ => (items.finish_whole taken).first
  | _ :: _, _, .done ending, _, _ => ending.closeList_whole.first
  | f :: fields, taken, .next value rest, parts, hfields =>
    Items.onlyIf_item (hfields f (by simp) value parts) fun parts =>
      readParts_whole fields (taken + 1) rest parts fun g hg => hfields g (by simp [hg])

theorem Source.readMetadata_whole (haccess : access.Streamed) (v : Source) :
    OnlyIf v.Whole (v.readMetadata access) := by
  cases v with
  | list items =>
    exact haccess.enter fun _ haccess' =>
      (Items.readParts_whole _ 0 items {} (MetadataParts.fields_careful haccess')).first
  | record entries =>
    exact haccess.enter fun _ haccess' =>
      (Entries.readFields_whole (MetadataParts.fields_careful haccess') entries {}).first
  | _ => exact .fault

end

/-! ## Structs -/

section

variable {access : Access}

theorem Literal.variants_careful : Variant.Careful variants := by
  intro name read h access _ content
  simp only [variants, List.mem_cons, Prod.mk.injEq, Variant.holding.injEq, reduceCtorEq, and_false,
    false_or, List.not_mem_nil, or_false] at h
  rcases h with ⟨-, rfl⟩ | ⟨-, rfl⟩ | ⟨-, rfl⟩ | ⟨-, rfl⟩
  · exact content.readString_whole.first
  · exact content.readInt64_whole.first
  · exact content.readDouble_whole.first
  · exact content.readBool_whole.first

theorem UnknownKeys.variants_careful : Variant.Careful variants := by
  intro name read h
  obtain ⟨policy, -, h⟩ := List.mem_map.mp h
  cases h

theorem Kind.variants_careful : Variant.Careful variants := by
  intro name read h
  obtain ⟨kind, -, h⟩ := List.mem_map.mp h
  cases h

theorem Source.readKindItem_whole (v : Source) : OnlyIf v.Whole (v.readKindItem access) :=
  .first v.readVariant_whole

theorem Source.readNothing_whole (leaf : Leaf) (v : Source) :
    OnlyIf v.Whole (v.readNothing access leaf) := by
  cases v with
  | null => exact .of_holds rfl
  | list items => exact .second fun _ _ => .fault
  | record entries => exact .second fun _ _ => .fault
  | _ => exact .fault

theorem Entries.noMore_whole : ∀ entries : Entries, OnlyIf entries.Whole entries.noMore
  | .next _ value rest => .second fun _ _ => .second fun _ _ =>
    Entries.onlyIf_value value.skip_whole fun _ => noMore_whole rest
  | .done _ | .brokenKey _ _ | .notKey | .noColon _ _ => Entries.finish_whole trivial

/-- The entries before and including the kind stand in full, if it is found. -/
theorem Entries.laterKind_whole (haccess : access.Streamed) :
    ∀ (entries : Entries) {kind : Kind} {rest : Entries}, entries.laterKind access = .ok (kind, rest) →
      rest.Whole → entries.Whole
  | .next key value rest, kind, after, h, hafter => by
    obtain ⟨name, -, h⟩ := bind_eq_ok.mp h
    obtain ⟨_, -, h⟩ := bind_eq_ok.mp h
    split at h
    · obtain ⟨k, hk, h⟩ := bind_eq_ok.mp h
      obtain ⟨rfl, rfl⟩ := Prod.mk.inj (Except.ok.inj h)
      have hvalue := (Source.readChoice_whole Kind.variants_careful haccess value).under k hk
      exact Entries.whole_next.mpr ⟨hvalue, hafter⟩
    · obtain ⟨_, hskip, h⟩ := bind_eq_ok.mp h
      exact Entries.whole_next.mpr
        ⟨value.skip_whole.under _ hskip, laterKind_whole haccess rest h hafter⟩
  | .done _, _, _, h, _ | .brokenKey _ _, _, _, h, _ | .notKey, _, _, h, _
  | .noColon _ _, _, _, h, _ => by
    obtain ⟨_, -, h⟩ := bind_eq_ok.mp h
    exact absurd h Loaded.fault_ne_ok

mutual

/-- A struct is only loaded from a value that stands in full. -/
theorem Source.readStruct_whole {access : Access} (haccess : access.Streamed) :
    ∀ v : Source, OnlyIf v.Whole (v.readStruct access)
  | .list items => haccess.enter fun _ haccess' => Items.readStruct_whole haccess' items
  | .record entries => haccess.enter fun _ haccess' =>
    Entries.readStruct_whole haccess' entries none none
  | .null | .bool _ | .number _ | .string _ | .broken _ _ _ => .fault

theorem Items.readStruct_whole {access : Access} (haccess : access.Streamed) :
    ∀ items : Items, OnlyIf items.Whole (items.readStruct access)
  | .done ending => ending.closeList_whole.first
  | .next first (.done ending) => Items.onlyIf_item (Source.readShape_whole haccess first) fun _ =>
    ending.closeList_whole.first
  | .next first (.next second rest) =>
    Items.onlyIf_item (Source.readShape_whole haccess first) fun _ =>
      Items.onlyIf_item (second.readMetadata_whole haccess) fun _ => (rest.finish_whole 2).first

theorem Entries.readStruct_whole {access : Access} (haccess : access.Streamed) :
    ∀ (entries : Entries) (shape : Option (Shape Struct)) (metadata : Option Metadata),
      OnlyIf entries.Whole (entries.readStruct access shape metadata)
  | .next key value rest, shape, metadata => by
    refine .second fun name _ => ?_
    split
    · exact .second fun _ _ => Entries.onlyIf_value (Source.readShape_whole haccess value) fun _ =>
        Entries.readStruct_whole haccess rest _ metadata
    · split
      · exact .second fun _ _ => Entries.onlyIf_value (value.readMetadata_whole haccess) fun _ =>
          Entries.readStruct_whole haccess rest shape _
      · exact Entries.onlyIf_value value.skip_whole fun _ =>
          Entries.readStruct_whole haccess rest shape metadata
  | .done _, _, _ | .brokenKey _ _, _, _ | .notKey, _, _ | .noColon _ _, _, _ =>
    .first (Entries.finish_whole trivial)

theorem Source.readShape_whole {access : Access} (haccess : access.Streamed) :
    ∀ v : Source, OnlyIf v.Whole (v.readShape access)
  | .list items => haccess.enter fun _ haccess' => Items.readShape_whole haccess' items
  | .record entries => haccess.enter fun _ haccess' => Entries.readShape_whole haccess' entries
  | .null | .bool _ | .number _ | .string _ | .broken _ _ _ => .fault

theorem Items.readShape_whole {access : Access} (haccess : access.Streamed) :
    ∀ items : Items, OnlyIf items.Whole (items.readShape access)
  | .done ending => ending.closeList_whole.first
  | .next first (.done ending) => Items.onlyIf_item first.readKindItem_whole fun _ =>
    ending.closeList_whole.first
  | .next first (.next second rest) => Items.onlyIf_item first.readKindItem_whole fun kind : Kind =>
    Items.onlyIf_item (Source.readContent_whole haccess kind.content second) fun _ =>
      (rest.finish_whole 2).first

theorem Entries.readShape_whole {access : Access} (haccess : access.Streamed) :
    ∀ entries : Entries, OnlyIf entries.Whole (entries.readShape access)
  | .next key value rest => by
    refine .second fun name _ => ?_
    split
    · exact Entries.onlyIf_value (Source.readChoice_whole Kind.variants_careful haccess value)
        fun kind => Entries.readContent_whole haccess kind.content rest
    · split
      · -- The content stood in full when it was checked, so it does not matter how it is read again.
        refine Entries.onlyIf_value (Source.json_whole haccess value) fun _ => ?_
        refine .second fun ⟨kind, later⟩ hlater => .second fun _ _ => ?_
        exact (later.noMore_whole.first).imp (Entries.laterKind_whole haccess rest hlater)
      · exact Entries.onlyIf_value value.skip_whole fun _ => Entries.readShape_whole haccess rest
  | .done _ | .brokenKey _ _ | .notKey | .noColon _ _ => .first (Entries.finish_whole trivial)

theorem Entries.readContent_whole {access : Access} (haccess : access.Streamed) (content : Content) :
    ∀ entries : Entries, OnlyIf entries.Whole (entries.readContent access content)
  | .next key value rest => by
    refine .second fun name _ => .second fun _ _ => ?_
    split
    · exact Entries.onlyIf_value (Source.readContent_whole haccess content value) fun _ =>
        rest.noMore_whole.first
    · exact Entries.onlyIf_value value.skip_whole fun _ =>
        Entries.readContent_whole haccess content rest
  | .done _ | .brokenKey _ _ | .notKey | .noColon _ _ => .first (Entries.finish_whole trivial)

theorem Source.readContent_whole {access : Access} (haccess : access.Streamed) :
    ∀ (content : Content) (v : Source), OnlyIf v.Whole (v.readContent access content)
  | .nothing leaf, v => by
    rw [Source.readContent_nothing]
    exact v.readNothing_whole leaf
  | .literal, v => by
    rw [Source.readContent_literal]
    exact (v.readChoice_whole Literal.variants_careful haccess).first
  | .struct _, .list items => haccess.enter fun _ haccess' =>
    (Items.readStruct_whole haccess' items).first
  | .struct _, .record entries => haccess.enter fun _ haccess' =>
    (Entries.readStruct_whole haccess' entries none none).first
  | .structs _, .list items => haccess.enter fun _ haccess' =>
    (Items.readStructs_whole haccess' items 0).first
  | .fields, .record entries => haccess.enter fun _ haccess' =>
    Entries.readObject_whole haccess' entries none none
  | .fields, .list _ => .second fun _ _ => .fault
  | .struct _, .null | .struct _, .bool _ | .struct _, .number _ | .struct _, .string _
  | .struct _, .broken _ _ _ | .structs _, .null | .structs _, .bool _ | .structs _, .number _
  | .structs _, .string _ | .structs _, .record _ | .structs _, .broken _ _ _ | .fields, .null
  | .fields, .bool _ | .fields, .number _ | .fields, .string _ | .fields, .broken _ _ _ => .fault

theorem Items.readStructs_whole {access : Access} (haccess : access.Streamed) :
    ∀ (items : Items) (position : Nat), OnlyIf items.Whole (items.readStructs access position)
  | .done ending, _ => ending.closeList_whole.first
  | .next value rest, position => Items.onlyIf_item (Source.readStruct_whole haccess value) fun _ =>
    (Items.readStructs_whole haccess rest (position + 1)).first

theorem Entries.readObject_whole {access : Access} (haccess : access.Streamed) :
    ∀ (entries : Entries) (fields : Option (Table String Struct)) (policy : Option UnknownKeys),
      OnlyIf entries.Whole (entries.readObject access fields policy)
  | .next key value rest, fields, policy => by
    rw [Entries.readObject_next]
    refine .second fun name _ => ?_
    split
    · exact .second fun _ _ => Entries.onlyIf_value (Source.readFieldTable_whole haccess value)
        fun _ => Entries.readObject_whole haccess rest _ policy
    · split
      · exact .second fun _ _ => Entries.onlyIf_value
          (Source.readChoice_whole UnknownKeys.variants_careful haccess value) fun _ =>
            Entries.readObject_whole haccess rest fields _
      · exact Entries.onlyIf_value value.skip_whole fun _ =>
          Entries.readObject_whole haccess rest fields policy
  | .done _, _, _ | .brokenKey _ _, _, _ | .notKey, _, _ | .noColon _ _, _, _ =>
    .first (Entries.finish_whole trivial)

theorem Source.readFieldTable_whole {access : Access} (haccess : access.Streamed) :
    ∀ v : Source, OnlyIf v.Whole (v.readFieldTable access)
  | .record entries => haccess.enter fun _ haccess' => Entries.readNamed_whole haccess' entries []
  | .null | .bool _ | .number _ | .string _ | .list _ | .broken _ _ _ => .fault

theorem Entries.readNamed_whole {access : Access} (haccess : access.Streamed) :
    ∀ (entries : Entries) (table : Table String Struct),
      OnlyIf entries.Whole (entries.readNamed access table)
  | .next _ value rest, _ => .second fun _ _ =>
    Entries.onlyIf_value (Source.readStruct_whole haccess value) fun _ =>
      Entries.readNamed_whole haccess rest _
  | .done _, _ | .brokenKey _ _, _ | .notKey, _ | .noColon _ _, _ =>
    .first (Entries.finish_whole trivial)

end

end

end ShapeSchema
