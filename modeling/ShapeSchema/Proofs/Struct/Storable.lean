import ShapeSchema.Proofs.Json.Values
import ShapeSchema.Proofs.Struct.Parts
import ShapeSchema.Struct.Written

/-!
# Structs that their written form keeps

Writing loses some things: numbers that are not finite, a default of null, ids whose text splits
elsewhere or nowhere. And what is nested too deeply cannot be read. A struct is storable if it has
nothing of that kind at any node.
-/

namespace ShapeSchema

/-- A number of a literal is finite. -/
def Leaf.IsFinite (l : Leaf) : Prop := ∀ x, l = .literal (.float x) → ∃ y, x = .finite y

/-- No default is null, and all ids are those of their texts. -/
def Metadata.Keeps (m : Metadata) : Prop :=
  m.default ≠ some .null ∧ ∀ entry ∈ m.annotations, entry.1.Valid

namespace Struct

/-- Writing loses nothing of this node. -/
def Keeps (t : Struct) : Prop :=
  (∀ l, t.shape = .leaf l → l.IsFinite) ∧ t.metadata.Keeps

/-- Writing loses nothing of the struct, and what is written can be read: it nests at most 127
arrays and objects. -/
def Storable (s : Struct) : Prop := (∀ t, Within t s → t.Keeps) ∧ s.written.depth ≤ 127

/-- The struct is as the ways to make one promise, nothing of it is lost, and its written form is no
deeper than `n`. -/
def Fits (n : Nat) (s : Struct) : Prop :=
  s.WellFormed ∧ (∀ t, Within t s → t.Keeps) ∧ s.written.depth ≤ n

theorem fits_iff_storable {s : Struct} : s.Fits 127 ↔ s.WellFormed ∧ s.Storable := Iff.rfl

end Struct

/-- A struct of this shape fits if nothing is attached to it. -/
def Shape.Fits (n : Nat) (shape : Shape Struct) : Prop := (Struct.mk shape {}).Fits (n + 1)

/-- The metadata is as promised, nothing of it is lost, and it is written no deeper than `n`, or not
at all. -/
def Metadata.Fits (n : Nat) (m : Metadata) : Prop :=
  m.WellFormed ∧ m.Keeps ∧ (m.isEmpty = false → m.written.depth ≤ n)

/-! ## Depths -/

theorem Json.depth_object_le_iff {entries : List (String × Json)} {n : Nat} :
    (Json.object entries).depth ≤ n ↔ ∃ k, n = k + 1 ∧ ∀ entry ∈ entries, entry.2.depth ≤ k := by
  cases n with
  | zero => exact iff_of_false (Nat.not_le_of_lt depth_object_pos) (by simp)
  | succ k => simp [depth_object_le]

theorem Kind.depth_written_le {kind : Kind} {content : Json} {n : Nat} :
    (kind.written (some content)).depth ≤ n ↔ ∃ k, n = k + 1 ∧ content.depth ≤ k := by
  have hkind : (Json.string kind.text).depth = 0 := rfl
  rw [Kind.written, Json.depth_object_le_iff]
  simp [hkind]

theorem Struct.depth_written_le {shape : Shape Struct} {m : Metadata} {n : Nat} :
    (Struct.mk shape m).written.depth ≤ n + 1 ↔
      (writtenShape shape).depth ≤ n ∧ (m.isEmpty = false → m.written.depth ≤ n) := by
  have hwritten : (Struct.mk shape m).written = withMetadata (writtenShape shape) m := rfl
  rw [hwritten, withMetadata, Json.depth_object_le, List.forall_mem_cons]
  cases m.isEmpty <;> simp [Metadata.presentUnder]

theorem Struct.writtenItems_eq (items : List Struct) :
    writtenItems items = items.map Struct.written := by
  induction items with
  | nil => rfl
  | cons s rest ih => exact congrArg (s.written :: ·) ih

theorem Struct.writtenFields_eq (fields : List (String × Struct)) :
    writtenFields fields = fields.map fun field => (field.1, field.2.written) := by
  induction fields with
  | nil => rfl
  | cons field rest ih => exact congrArg ((field.1, field.2.written) :: ·) ih

/-! ## Node by node -/

theorem Metadata.keeps_empty : Metadata.Keeps {} := ⟨by simp, by simp⟩

theorem Metadata.wellFormed_empty : Metadata.WellFormed {} :=
  ⟨by simp, List.nodup_nil, by simp⟩

theorem Metadata.fits_empty (n : Nat) : Metadata.Fits n {} :=
  ⟨wellFormed_empty, keeps_empty, fun h => nomatch h⟩

theorem Struct.wellFormed_mk {shape : Shape Struct} {m : Metadata} :
    (Struct.mk shape m).WellFormed ↔ (Struct.mk shape {}).WellFormed ∧ m.WellFormed := by
  have hempty := Metadata.wellFormed_empty
  cases shape with
  | leaf l => exact ⟨fun h => ⟨⟨h.1, hempty⟩, h.2⟩, fun h => ⟨h.1.1, h.2⟩⟩
  | wrapper w inner => exact ⟨fun h => ⟨⟨h.1, hempty⟩, h.2⟩, fun h => ⟨h.1.1, h.2⟩⟩
  | series k items => exact ⟨fun h => ⟨⟨h.1, hempty⟩, h.2⟩, fun h => ⟨h.1.1, h.2⟩⟩
  | object fields policy =>
    exact ⟨fun h => ⟨⟨h.1, h.2.1, hempty⟩, h.2.2⟩, fun h => ⟨h.1.1, h.1.2.1, h.2⟩⟩

/-- A struct fits if its shape and its metadata do. -/
theorem Struct.fits_mk {n : Nat} {shape : Shape Struct} {m : Metadata} :
    (Struct.mk shape m).Fits (n + 1) ↔ shape.Fits n ∧ m.Fits n := by
  have hempty := Metadata.keeps_empty
  rw [Shape.Fits, Struct.Fits, Struct.Fits, Metadata.Fits, wellFormed_mk, forall_within,
    forall_within, depth_written_le, depth_written_le]
  constructor
  · intro h
    obtain ⟨⟨hshape, hm⟩, ⟨⟨hfinite, hkeeps⟩, hparts⟩, hdepth, hmdepth⟩ := h
    exact ⟨⟨hshape, ⟨⟨hfinite, hempty⟩, hparts⟩, hdepth, fun h => nomatch h⟩, hm, hkeeps, hmdepth⟩
  · intro h
    obtain ⟨⟨hshape, ⟨⟨hfinite, -⟩, hparts⟩, hdepth, -⟩, hm, hkeeps, hmdepth⟩ := h
    exact ⟨⟨hshape, hm⟩, ⟨⟨hfinite, hkeeps⟩, hparts⟩, hdepth, hmdepth⟩

theorem Struct.Fits.pos {n : Nat} {s : Struct} (h : s.Fits n) : ∃ k, n = k + 1 := by
  obtain ⟨shape, m⟩ := s
  obtain ⟨k, hk, -⟩ := Json.depth_object_le_iff.mp h.2.2
  exact ⟨k, hk⟩

theorem Struct.Fits.mono {n n' : Nat} {s : Struct} (h : s.Fits n) (hle : n ≤ n') : s.Fits n' :=
  ⟨h.1, h.2.1, Nat.le_trans h.2.2 hle⟩

/-! ## Shape by shape -/

namespace Shape

variable {n : Nat}

theorem fits_iff {shape : Shape Struct} :
    Shape.Fits n shape ↔ (Struct.mk shape {}).WellFormed ∧ (∀ l, shape = .leaf l → l.IsFinite) ∧
      (∀ part ∈ shape.parts, ∀ t, Struct.Within t part → t.Keeps) ∧
      (Struct.writtenShape shape).depth ≤ n := by
  rw [Shape.Fits, Struct.Fits, Struct.forall_within, Struct.depth_written_le]
  constructor
  · intro h
    obtain ⟨hwell, ⟨⟨hfinite, -⟩, hparts⟩, hdepth, -⟩ := h
    exact ⟨hwell, hfinite, hparts, hdepth⟩
  · intro h
    obtain ⟨hwell, hfinite, hparts, hdepth⟩ := h
    exact ⟨hwell, ⟨⟨hfinite, Metadata.keeps_empty⟩, hparts⟩, hdepth, fun h => nomatch h⟩

theorem fits_leaf {l : Leaf} :
    Shape.Fits n (.leaf l) ↔ l.InRange ∧ l.IsFinite ∧ l.written.depth ≤ n := by
  rw [fits_iff]
  constructor
  · intro h
    obtain ⟨hwell, hfinite, -, hdepth⟩ := h
    exact ⟨hwell.1, hfinite l rfl, hdepth⟩
  · intro h
    obtain ⟨hrange, hfinite, hdepth⟩ := h
    refine ⟨⟨hrange, Metadata.wellFormed_empty⟩, ?_, by simp [parts], hdepth⟩
    rintro _ ⟨⟩
    exact hfinite

theorem fits_wrapper {w : Wrapper} {inner : Struct} :
    Shape.Fits n (.wrapper w inner) ↔ ∃ k, n = k + 1 ∧ inner.Fits k := by
  have hwritten : Struct.writtenShape (.wrapper w inner) = w.kind.written (some inner.written) := rfl
  rw [fits_iff, hwritten, Kind.depth_written_le]
  constructor
  · intro h
    obtain ⟨hwell, -, hparts, k, hk, hdepth⟩ := h
    exact ⟨k, hk, hwell.1, hparts inner (by simp [parts]), hdepth⟩
  · intro h
    obtain ⟨k, hk, hwell, hkeeps, hdepth⟩ := h
    refine ⟨⟨hwell, Metadata.wellFormed_empty⟩, by simp, ?_, k, hk, hdepth⟩
    intro part hpart
    obtain rfl : part = inner := List.mem_singleton.mp hpart
    exact hkeeps

theorem fits_series {k : Series} {items : List Struct} :
    Shape.Fits n (.series k items) ↔ ∃ d, n = d + 2 ∧ ∀ s ∈ items, s.Fits d := by
  have hwritten : Struct.writtenShape (.series k items) =
      k.kind.written (some (.array (Struct.writtenItems items))) := rfl
  have hdepth : ∀ d, (Json.array (Struct.writtenItems items)).depth ≤ d + 1 ↔
      ∀ s ∈ items, s.written.depth ≤ d := by
    intro d
    rw [Json.depth_array_le, Struct.writtenItems_eq, List.forall_mem_map]
  rw [fits_iff, hwritten, Kind.depth_written_le]
  constructor
  · intro h
    obtain ⟨hwell, -, hparts, d, hd, hle⟩ := h
    cases d with
    | zero => exact absurd hle (Nat.not_succ_le_zero _)
    | succ d =>
      -- Two levels: that of the shape, and that of the array of items.
      exact ⟨d, hd, fun s hs =>
        ⟨Struct.wellFormedItems_iff.mp hwell.1 s hs, hparts s hs, (hdepth d).mp hle s hs⟩⟩
  · intro h
    obtain ⟨d, hd, hitems⟩ := h
    refine ⟨⟨Struct.wellFormedItems_iff.mpr fun s hs => (hitems s hs).1, Metadata.wellFormed_empty⟩,
      by simp, fun s hs => (hitems s hs).2.1, d + 1, hd, ?_⟩
    exact (hdepth d).mpr fun s hs => (hitems s hs).2.2

theorem fits_object {fields : List (String × Struct)} {policy : UnknownKeys} :
    Shape.Fits n (.object fields policy) ↔
      ∃ d, n = d + 3 ∧ Table.Distinct fields ∧ ∀ field ∈ fields, field.2.Fits d := by
  have hwritten : Struct.writtenShape (.object fields policy) = Kind.object.written (some (.object
      [("fields", .object (Struct.writtenFields fields)), ("unknownKeys", policy.written)])) := rfl
  have hpolicy : policy.written.depth = 0 := rfl
  have hdepth : ∀ d, (Json.object (Struct.writtenFields fields)).depth ≤ d + 1 ↔
      ∀ field ∈ fields, field.2.written.depth ≤ d := by
    intro d
    rw [Json.depth_object_le, Struct.writtenFields_eq, List.forall_mem_map]
  rw [fits_iff, hwritten, Kind.depth_written_le]
  constructor
  · intro h
    obtain ⟨hwell, -, hparts, k, hk, hle⟩ := h
    obtain ⟨j, rfl, hentries⟩ := Json.depth_object_le_iff.mp hle
    have hfields : (Json.object (Struct.writtenFields fields)).depth ≤ j :=
      hentries _ List.mem_cons_self
    cases j with
    | zero => exact absurd hfields (Nat.not_succ_le_zero _)
    | succ d =>
      refine ⟨d, hk, hwell.1, fun field hfield => ⟨?_, ?_, (hdepth d).mp hfields field hfield⟩⟩
      · exact Struct.wellFormedFields_iff.mp hwell.2.1 field hfield
      · exact hparts field.2 (List.mem_map_of_mem hfield)
  · intro h
    obtain ⟨d, hd, hdistinct, hfields⟩ := h
    refine ⟨⟨hdistinct, Struct.wellFormedFields_iff.mpr fun field hfield => (hfields field hfield).1,
      Metadata.wellFormed_empty⟩, by simp, ?_, d + 2, hd, ?_⟩
    · intro part hpart
      obtain ⟨field, hfield, rfl⟩ := List.mem_map.mp hpart
      exact (hfields field hfield).2.1
    · refine Json.depth_object_le.mpr ?_
      simp only [List.forall_mem_cons, hpolicy]
      exact ⟨(hdepth d).mpr fun field hfield => (hfields field hfield).2.2, Nat.zero_le _, by simp⟩

end Shape

end ShapeSchema
