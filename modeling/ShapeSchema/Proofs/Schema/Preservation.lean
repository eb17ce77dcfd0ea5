import ShapeSchema.Proofs.Json.Paths
import ShapeSchema.Proofs.Schema.EqualEncoding

/-!
# Encoding keeps data

What a struct emits has no data that the value has not: along every path it is of the make of the
value, but for the nulls of fields that are absent. And unless an object strips the entries that it
does not declare, nothing but nulls is lost.
-/

namespace ShapeSchema

namespace Struct

/-- No object within drops the entries that it does not declare. -/
def Unstripped (s : Struct) : Prop := ∀ t, Within t s → ∀ fields, t.shape ≠ .object fields .strip

theorem unstripped_mk {shape : Shape Struct} {m : Metadata} :
    (Struct.mk shape m).Unstripped ↔
      (∀ fields, shape ≠ .object fields .strip) ∧ ∀ part ∈ shape.parts, part.Unstripped :=
  forall_within

theorem Unstripped.part {s part : Struct} (h : s.Unstripped) (mem : part ∈ s.shape.parts) :
    part.Unstripped :=
  fun t ht => h t (ht.trans (.of_part mem))

/-- What is found in what an object emits: under the name of a field what that field is encoded as,
unless it is the null of an option, and under other names what the value has, if that is kept. -/
theorem find?_output (policy : UnknownKeys) {fields : List (String × Struct)}
    {R : String × Struct → Json → Prop} {entries : Table String Json} {ws : List Json}
    (hfields : Table.Distinct fields) (hentries : Table.Distinct entries)
    (hws : List.Forall₂ R fields ws) (k : String) :
    (k ∉ Table.keys fields ∧ Table.find? k (output policy fields entries ws) =
      if policy = .passthrough then Table.find? k entries else none) ∨
      ∃ s w, (k, s) ∈ fields ∧ R (k, s) w ∧
        Table.find? k (output policy fields entries ws) =
          if w.isNull && s.isOption then none else some w := by
  have hexcess : Table.Distinct (excess fields entries) := hentries.filter _
  have hkept : Table.find? k (excess fields entries) =
      if !Table.contains k fields then Table.find? k entries else none :=
    Table.find?_filter (fun key => !Table.contains key fields) k entries
  have hmerge : Table.find? k (output policy fields entries ws) =
      (if policy = .passthrough then Table.find? k (excess fields entries) else none).or
        (Table.find? k (emitted fields ws)) := by
    rw [output]
    split
    · exact Table.find?_merge hexcess
    · rfl
  rcases find?_emitted hfields hws k with ⟨hk, hfind⟩ | ⟨s, w, hs, hw, hfind⟩
  · have hk' : Table.contains k fields = false := by
      rw [Bool.eq_false_iff, ne_eq, Table.contains_iff]
      exact hk
    refine .inl ⟨hk, ?_⟩
    rw [hmerge, hfind, hkept, hk', Option.or_none]
    simp
  · have hk : Table.contains k fields = true := Table.contains_iff.mpr (Table.mem_keys_of_mem hs)
    refine .inr ⟨s, w, hs, hw, ?_⟩
    rw [hmerge, hfind, hkept, hk]
    simp

/-! ## Shape by shape -/

/-- Along all paths, what the struct emits has nothing that the value has not, and it has all that
the value has, if no object drops entries. -/
def Preserves (s : Struct) : Prop :=
  ∀ v w, v.WellFormed → s.encode v = .ok w → w.Echoes v ∧ (s.Unstripped → w.Covers v)

namespace Preserves

variable {s : Struct} {m : Metadata}

theorem eq_null_iff (h : s.Preserves) {v w : Json} (hv : v.WellFormed) (hw : s.encode v = .ok w) :
    w = .null ↔ v = .null :=
  (h v w hv hw).1.sameMake.eq_null_iff.symm

theorem leaf (l : Leaf) (m : Metadata) : (Struct.mk (.leaf l) m).Preserves := by
  intro v w _ hw
  obtain ⟨-, rfl⟩ := encode_leaf_eq_ok.mp hw
  exact ⟨.refl v, fun _ => .refl v⟩

theorem nullish {wr : Wrapper} (hwr : wr = .option ∨ wr = .nullable) (h : s.Preserves) :
    (Struct.mk (.wrapper wr s) m).Preserves := by
  intro v w hv hw
  rcases (encode_nullish_eq_ok hwr).mp hw with ⟨rfl, rfl⟩ | ⟨-, hw⟩
  · exact ⟨.refl .null, fun _ => .refl .null⟩
  · obtain ⟨hechoes, hcovers⟩ := h v w hv hw
    exact ⟨hechoes, fun hkeep => hcovers (hkeep.part (by simp [shape, Shape.parts]))⟩

theorem array (h : s.Preserves) : (Struct.mk (.wrapper .array s) m).Preserves := by
  intro v w hv hw
  obtain ⟨vs, ws, rfl, hws, rfl⟩ := encode_array_eq_ok.mp hw
  have hvs := Json.wellFormed_array.mp hv
  have hitems : List.Forall₂ (fun v w => w.Echoes v ∧ (s.Unstripped → w.Covers v)) vs ws :=
    forall₂_imp_of_mem hws fun v hmem w hvw => h v w (hvs v hmem) hvw
  refine ⟨Json.echoes_array (hitems.imp fun _ _ h => h.1).flip, fun hkeep => ?_⟩
  have hinner : s.Unstripped := hkeep.part (by simp [shape, Shape.parts])
  exact Json.covers_array (hitems.imp fun _ _ h => h.2 hinner).flip

theorem dict (h : s.Preserves) : (Struct.mk (.wrapper .dict s) m).Preserves := by
  intro v w hv hw
  obtain ⟨entries, out, rfl, hout, rfl⟩ := encode_dict_eq_ok.mp hw
  obtain ⟨-, hvs⟩ := Json.wellFormed_object.mp hv
  have hitems : Table.Agree (fun _ v w => w.Echoes v ∧ (s.Unstripped → w.Covers v)) entries out := by
    refine .of_forall₂ (forall₂_imp_of_mem hout fun entry hmem o ho => ⟨ho.1, ?_⟩)
    exact h entry.2 o.2 (hvs entry hmem) ho.2
  refine ⟨Json.echoes_object fun name x hx => .inl ?_, fun hkeep => ?_⟩
  · obtain ⟨y, hy, hechoes, -⟩ := hitems.flip.find?_eq_some hx
    exact ⟨y, hy, hechoes⟩
  · have hinner : s.Unstripped := hkeep.part (by simp [shape, Shape.parts])
    refine Json.covers_object fun name y hy _ => ?_
    obtain ⟨x, hx, -, hcovers⟩ := hitems.find?_eq_some hy
    exact ⟨x, hx, hcovers hinner⟩

theorem tuple {items : List Struct} (h : ∀ s ∈ items, s.Preserves) :
    (Struct.mk (.series .tuple items) m).Preserves := by
  intro v w hv hw
  obtain ⟨vs, ws, rfl, hlength, hws, rfl⟩ := encode_tuple_eq_ok.mp hw
  have hvs := Json.wellFormed_array.mp hv
  have hpairs : List.Forall₂
      (fun p w => w.Echoes p.2 ∧ ((Struct.mk (.series .tuple items) m).Unstripped → w.Covers p.2))
      (items.zip vs) ws := by
    refine forall₂_imp_of_mem hws fun p hp w hw => ?_
    obtain ⟨hs, hmem⟩ := List.of_mem_zip hp
    obtain ⟨hechoes, hcovers⟩ := h p.1 hs p.2 w (hvs p.2 hmem) hw
    exact ⟨hechoes, fun hkeep => hcovers (hkeep.part hs)⟩
  have hitems : List.Forall₂
      (fun v w => w.Echoes v ∧ ((Struct.mk (.series .tuple items) m).Unstripped → w.Covers v))
      vs ws := by
    rw [← List.map_snd_zip (Nat.le_of_eq hlength), List.forall₂_map_left_iff]
    exact hpairs
  exact ⟨Json.echoes_array (hitems.imp fun _ _ h => h.1).flip,
    fun hkeep => Json.covers_array (hitems.imp fun _ _ h => h.2 hkeep).flip⟩

theorem union {variants : List Struct} (h : ∀ s ∈ variants, s.Preserves) :
    (Struct.mk (.series .union variants) m).Preserves := by
  intro v w hv hw
  obtain ⟨s, hs, hencode⟩ := encodeUnion_eq_some (encode_union_eq_ok.mp hw)
  obtain ⟨hechoes, hcovers⟩ := h s hs v w hv hencode
  exact ⟨hechoes, fun hkeep => hcovers (hkeep.part hs)⟩

theorem object {fields : List (String × Struct)} {policy : UnknownKeys}
    (hdistinct : Table.Distinct fields) (h : ∀ field ∈ fields, field.2.Preserves) :
    (Struct.mk (.object fields policy) m).Preserves := by
  intro v w hv hw
  obtain ⟨entries, ws, rfl, hws, hstrict, rfl⟩ := (encode_object_eq_ok hdistinct).mp hw
  obtain ⟨hentries, hvs⟩ := Json.wellFormed_object.mp hv
  have hfound {name : String} {y : Json} (hy : Table.find? name entries = some y) :
      y.WellFormed :=
    hvs _ (Table.mem_of_find? hy)
  refine ⟨Json.echoes_object fun name x hx => ?_, fun hkeep => Json.covers_object ?_⟩
  -- What is emitted comes from a field, or was kept.
  · rcases find?_output policy hdistinct hentries hws name with ⟨-, hother⟩ | ⟨s, w, hs, hw, hfield⟩
    · rw [hother] at hx
      split at hx
      · exact .inl ⟨x, hx, .refl x⟩
      · cases hx
    · rw [hfield] at hx
      split at hx
      · cases hx
      · obtain rfl := Option.some.inj hx
        cases hy : Table.find? name entries with
        | some y =>
          rw [input, hy] at hw
          exact .inl ⟨y, rfl, (h _ hs y w (hfound hy) hw).1⟩
        | none =>
          -- An absent field is read as null, and null is all that null is encoded as.
          have hnull : Json.null.WellFormed := trivial
          rw [input, hy] at hw
          exact .inr ⟨((h _ hs).eq_null_iff hnull hw).mpr rfl, Table.find?_eq_none_iff.mp hy⟩
  -- What the value has belongs to a field, or is kept: stripping and refusing are ruled out.
  · intro name y hy hne
    rcases find?_output policy hdistinct hentries hws name with
      ⟨hname, hother⟩ | ⟨s, w, hs, hw, hfield⟩
    · have hexcess : (name, y) ∈ excess fields entries :=
        mem_excess.mpr ⟨Table.mem_of_find? hy, hname⟩
      cases policy with
      | strip => exact absurd rfl (hkeep _ (.refl _) fields)
      | strict =>
        rw [hstrict rfl] at hexcess
        cases hexcess
      | passthrough => exact ⟨y, by rw [hother, if_pos rfl, hy], .refl y⟩
    · rw [input, hy] at hw
      have hw' : w ≠ .null := fun hnull => hne (((h _ hs).eq_null_iff (hfound hy) hw).mp hnull)
      have hisNull : w.isNull = false := by
        cases w <;> first | rfl | exact absurd rfl hw'
      refine ⟨w, by rw [hfield, hisNull]; rfl, ?_⟩
      exact (h _ hs y w (hfound hy) hw).2 (hkeep.part (List.mem_map_of_mem hs))

end Preserves

/-! ## All structs -/

theorem preserves {s : Struct} (hs : s.WellFormed) : s.Preserves := by
  induction s using Struct.induction with
  | leaf l m => exact .leaf l m
  | wrapper w inner m ih =>
    have hinner : inner.Preserves := ih hs.1
    cases w with
    | option => exact .nullish (.inl rfl) hinner
    | nullable => exact .nullish (.inr rfl) hinner
    | array => exact .array hinner
    | dict => exact .dict hinner
  | series k items m ih =>
    have hitems : ∀ s ∈ items, s.Preserves := fun s hmem => ih s hmem (hs.part hmem)
    cases k with
    | tuple => exact .tuple hitems
    | union => exact .union hitems
  | object fields policy m ih =>
    exact .object hs.1 fun field hfield => ih field hfield (hs.part (List.mem_map_of_mem hfield))

end Struct

/-- **Encoding neither invents nor loses data.** Whatever stands at a path in what a struct emits,
the same scalar, an array of the same length or an object stands there in the value, or it is a null
under a key that the object in the value does not have. If no object of the struct drops entries,
then whatever but null stands at a path in the value, its like stands there in what is emitted.
Null, and only null, is encoded as null. -/
theorem encoding_keeps_data (s : Struct) (hs : s.WellFormed) (v w : Json) (hv : v.WellFormed)
    (hw : s.encode v = .ok w) :
    (∀ path x, w.at? path = some x →
      (∃ y, v.at? path = some y ∧ Json.SameMake y x) ∨ x = .null ∧ v.Lacks path) ∧
    (s.Unstripped → ∀ path y, v.at? path = some y → y ≠ .null →
      ∃ x, w.at? path = some x ∧ Json.SameMake y x) ∧
    (w = .null ↔ v = .null) := by
  obtain ⟨hechoes, hcovers⟩ := Struct.preserves hs v w hv hw
  exact ⟨hechoes, hcovers, (Struct.preserves hs).eq_null_iff hv hw⟩

/-- A shelf with its books, each with a title and a year, with its owner if it has one, and whatever
else is said of it. -/
def shelf : Struct :=
  (Struct.object [("books", .array (.tuple [.string, .int])),
    ("owner", .nullable .string)]).passthrough

/-- A shelf that nobody owns. -/
def oneBook : Json :=
  .object [("room", .object [("floor", .int 2)]),
    ("books", .array [.array [.string "Emma", .int 1815]])]

/-- The same shelf as it is emitted. -/
def oneBookEmitted : Json :=
  .object [("books", .array [.array [.string "Emma", .int 1815]]), ("owner", .null),
    ("room", .object [("floor", .int 2)])]

theorem encoding_keeps_data_shelf :
    shelf.WellFormed ∧ oneBook.WellFormed ∧ shelf.encode oneBook = .ok oneBookEmitted ∧
      shelf.Unstripped ∧ oneBook.Lacks [.key "owner"] ∧
      ∃ x, oneBookEmitted.at? [.key "room", .key "floor"] = some x ∧ Json.SameMake (.int 2) x := by
  have hs : shelf.WellFormed := by
    simp [shelf, Struct.object, Struct.passthrough, Struct.withUnknownKeys, Table.ofList,
      Table.insert, Struct.WellFormed, Struct.WellFormedFields, Struct.WellFormedItems,
      Struct.string, Struct.int, Struct.array, Struct.tuple, Struct.nullable, Struct.wrapper,
      Struct.leaf, Leaf.InRange, Metadata.WellFormed, Table.Distinct]
  have hkeep : shelf.Unstripped := by
    simp [shelf, Struct.object, Struct.passthrough, Struct.withUnknownKeys, Table.ofList,
      Table.insert, Struct.unstripped_mk, Shape.parts, Struct.string, Struct.int, Struct.array,
      Struct.tuple, Struct.nullable, Struct.wrapper, Struct.leaf]
  have hv : oneBook.WellFormed := by
    simp [oneBook, Json.WellFormed, Json.WellFormedEntries, Json.WellFormedItems, Json.int,
      Number.InRange, IsInt64, Table.Distinct]
  have hw : shelf.encode oneBook = .ok oneBookEmitted := rfl
  obtain ⟨hechoes, hcovers, -⟩ := encoding_keeps_data shelf hs oneBook oneBookEmitted hv hw
  refine ⟨hs, hv, hw, hkeep, ?_, hcovers hkeep _ _ rfl (by simp [Json.int])⟩
  rcases hechoes [.key "owner"] .null rfl with ⟨y, hy, -⟩ | ⟨-, hlacks⟩
  · cases hy
  · exact hlacks

end ShapeSchema
