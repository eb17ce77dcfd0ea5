import ShapeSchema.Proofs.Load.RoundTrip
import ShapeSchema.Proofs.Schema.DepthLimit
import ShapeSchema.Proofs.Schema.Meaning

/-!
# How high loaded structs are

A struct inside another one is written at least two levels further in, whatever stands between them: the
shape of the outer struct, and the struct itself. A text nests at most 127 levels, so that no struct that
is loaded is higher than 62, and the default limit of conversions is never reached.
-/

namespace ShapeSchema

/-! ## Levels of the written form -/

theorem Kind.depth_content_lt (kind : Kind) (content : Json) :
    content.depth < (kind.written (some content)).depth :=
  Json.depth_entry_lt (show ("of", content) ∈ _ by simp)

namespace Struct

theorem depth_writtenShape_lt (shape : Shape Struct) (m : Metadata) :
    (writtenShape shape).depth < (Struct.mk shape m).written.depth :=
  Json.depth_entry_lt (show ("shape", writtenShape shape) ∈ _ from List.mem_cons_self)

theorem depth_writtenShape_pos (shape : Shape Struct) : 0 < (writtenShape shape).depth := by
  cases shape with
  | leaf l => cases l <;> exact Json.depth_object_pos
  | _ => exact Json.depth_object_pos

theorem depth_part_lt_writtenShape {shape : Shape Struct} {part : Struct} (mem : part ∈ shape.parts) :
    part.written.depth < (writtenShape shape).depth := by
  cases shape with
  | leaf l => cases mem
  | wrapper w inner =>
    obtain rfl := List.mem_singleton.mp mem
    exact w.kind.depth_content_lt _
  | series k items =>
    have hitems : part.written ∈ writtenItems items := by
      rw [writtenItems_eq]
      exact List.mem_map_of_mem mem
    exact Nat.lt_trans (Json.depth_item_lt hitems) (k.kind.depth_content_lt _)
  | object fields policy =>
    obtain ⟨field, hfield, rfl⟩ := List.mem_map.mp mem
    have hentry : (field.1, field.2.written) ∈ writtenFields fields := by
      rw [writtenFields_eq]
      exact List.mem_map_of_mem hfield
    have hfields : ("fields", Json.object (writtenFields fields)) ∈
        [("fields", .object (writtenFields fields)), ("unknownKeys", policy.written)] :=
      List.mem_cons_self
    calc field.2.written.depth < (Json.object (writtenFields fields)).depth :=
          Json.depth_entry_lt hentry
      _ < _ := Json.depth_entry_lt hfields
      _ < _ := Kind.object.depth_content_lt _

/-- Two levels of the written form for each level of the struct, and two for what is innermost. -/
theorem height_written (s : Struct) : 2 * s.height + 2 ≤ s.written.depth := by
  induction s using Struct.induction_parts with
  | step s ih =>
    obtain ⟨shape, m⟩ := s
    have hshape := depth_writtenShape_lt shape m
    have hpos := depth_writtenShape_pos shape
    have hheight : (Struct.mk shape m).height ≤ ((Struct.mk shape m).written.depth - 2) / 2 := by
      refine height_le.mpr fun part mem => ?_
      have hpart := ih part mem
      have hinside : part.written.depth < (writtenShape shape).depth :=
        depth_part_lt_writtenShape mem
      omega
    omega

/-- What is loaded is no higher than 62. -/
theorem height_le_of_loadBytes {bytes : List UInt8} {s : Struct}
    (h : Struct.loadBytes bytes = .ok s) : s.height ≤ 62 := by
  have hdepth : s.written.depth ≤ 127 := (storable_of_loadBytes h).2.2
  have hheight := height_written s
  omega

/-- A struct no higher than the limit is not too deep, neither for the node nor for the document. -/
theorem ne_tooDeep_of_height {s : Struct} {config : Config} (hheight : s.height ≤ config.maxDepth)
    (place : Place) (n : Nat) :
    (s.node config).result ≠ .error ⟨place, .tooDeep n⟩ ∧
      s.documentWith config ≠ .error ⟨place, .tooDeep n⟩ := by
  have hnode : (s.node config).result ≠ .error ⟨place, .tooDeep n⟩ := fun h =>
    Nat.not_lt_of_le hheight (node_eq_tooDeep h).2.1
  refine ⟨hnode, fun h => ?_⟩
  rw [documentWith_eq] at h
  rcases bind_eq_error.mp h with herror | ⟨node, -, hroot⟩
  · exact hnode herror
  · rw [result_documentOf] at hroot
    split at hroot <;> cases hroot

/-! ## The highest structs that are loaded -/

/-- Integers in arrays, one inside the other. -/
def nested : Nat → Struct
  | 0 => .int
  | n + 1 => .array (nested n)

theorem height_nested (n : Nat) : (nested n).height = n := by
  induction n with
  | zero => rfl
  | succ n ih => exact congrArg (· + 1) ih

theorem depth_nested (n : Nat) : (nested n).written.depth = 2 * n + 2 := by
  induction n with
  | zero => rfl
  | succ n ih =>
    have hdepth : (nested (n + 1)).written.depth =
        max (max 0 (max (nested n).written.depth 0) + 1) 0 + 1 := rfl
    omega

theorem wellFormed_nested (n : Nat) : (nested n).WellFormed := by
  induction n with
  | zero => exact ⟨trivial, Metadata.wellFormed_empty⟩
  | succ n ih => exact ⟨ih, Metadata.wellFormed_empty⟩

theorem keeps_nested (n : Nat) : ∀ t, Within t (nested n) → t.Keeps := by
  induction n with
  | zero =>
    refine forall_within.mpr ⟨⟨?_, Metadata.keeps_empty⟩, fun part mem => nomatch mem⟩
    rintro _ ⟨⟩ x ⟨⟩
  | succ n ih =>
    refine forall_within.mpr ⟨⟨by rintro _ ⟨⟩, Metadata.keeps_empty⟩, fun part mem => ?_⟩
    obtain rfl := List.mem_singleton.mp mem
    exact ih

theorem floats_nested (n : Nat) : (nested n).written.floats = [] := by
  induction n with
  | zero => rfl
  | succ n ih =>
    have hfloats : (nested (n + 1)).written.floats = ((nested n).written.floats ++ []) ++ [] := rfl
    rw [hfloats, ih]
    rfl

/-- Up to the height of 62, arrays inside each other come back from their text, and no further. -/
theorem load_nested_iff {n : Nat} :
    Struct.load (nested n).written.compact = .ok (nested n) ↔ n ≤ 62 := by
  rw [load_written_iff (wellFormed_nested n) (by simp [floats_nested]), Storable, depth_nested]
  constructor
  · intro h
    have hdepth := h.2
    omega
  · exact fun h => ⟨keeps_nested n, by omega⟩

theorem lower_nested {limit : Nat} (n depth : Nat) (h : limit < depth + n) :
    ((nested n).lower limit depth).result = .error ⟨[], .tooDeep limit⟩ := by
  induction n generalizing depth with
  | zero =>
    rw [result_lower, if_pos (show limit < depth from h)]
    rfl
  | succ n ih =>
    rw [result_lower]
    split
    · rfl
    · have hinner := ih (depth + 1) (by omega)
      show (lowerShape limit (.wrapper .array (nested n)) (depth + 1)).result >>= _ = _
      rw [lowerShape_wrapper, Traced.result_bind, hinner]
      rfl

/-- Every limit below the height is told. -/
theorem node_nested {n limit : Nat} (h : limit < n) :
    ((nested n).node ⟨limit⟩).result = .error ⟨[], .tooDeep limit⟩ :=
  lower_nested n 0 (by rwa [Nat.zero_add])

end Struct

/-- **The default limit is out of reach.** A struct that is loaded, from a text or from bytes, is no
higher than 62. So its conversion never fails for its depth under a limit of at least 62, such as the
default. -/
theorem loaded_within_limit (s : Struct)
    (h : (∃ bytes, Struct.loadBytes bytes = .ok s) ∨ ∃ text, Struct.load text = .ok s) :
    s.height ≤ 62 ∧
      (∀ config : Config, 62 ≤ config.maxDepth → ∀ place n,
        (s.node config).result ≠ .error ⟨place, .tooDeep n⟩ ∧
          s.documentWith config ≠ .error ⟨place, .tooDeep n⟩) ∧
      62 ≤ ({} : Config).maxDepth := by
  have hheight : s.height ≤ 62 := by
    rcases h with ⟨bytes, hload⟩ | ⟨text, hload⟩
    · exact Struct.height_le_of_loadBytes hload
    · have hbytes : Struct.loadBytes (Source.bytesOf text) = .ok s := hload
      exact Struct.height_le_of_loadBytes hbytes
  exact ⟨hheight, fun config hlimit => Struct.ne_tooDeep_of_height (Nat.le_trans hheight hlimit),
    by decide⟩

/-- There is a struct of the height of 62 that is loaded, and under a lower limit it is too deep. -/
theorem loaded_within_limit_nested :
    Struct.load (Struct.nested 62).written.compact = .ok (Struct.nested 62) ∧
      (Struct.nested 62).height = 62 ∧
      ((Struct.nested 62).node ⟨61⟩).result = .error ⟨[], .tooDeep 61⟩ ∧
      ∀ place n, ((Struct.nested 62).node ⟨62⟩).result ≠ .error ⟨place, .tooDeep n⟩ := by
  have hload : Struct.load (Struct.nested 62).written.compact = .ok (Struct.nested 62) :=
    Struct.load_nested_iff.mpr (Nat.le_refl 62)
  obtain ⟨-, hlimit, -⟩ := loaded_within_limit (Struct.nested 62) (.inr ⟨_, hload⟩)
  exact ⟨hload, Struct.height_nested 62, Struct.node_nested (by decide),
    fun place n => (hlimit ⟨62⟩ (Nat.le_refl 62) place n).1⟩

end ShapeSchema
