import ShapeSchema.Proofs.Struct.Parts
import ShapeSchema.Schema.Place

/-!
# Structs inside structs

How high a struct is, and where another one stands in it: the containers around it, from the outermost
to the innermost, each with a gap in the place of what is inside.
-/

namespace ShapeSchema

/-! ## Height -/

namespace Struct

mutual

/-- The longest chain of structs inside each other, below the struct. -/
def height : Struct → Nat
  | .mk shape _ => heightOfShape shape
termination_by structural s => s

/-- The longest chain of structs inside each other in a shape. -/
def heightOfShape : Shape Struct → Nat
  | .leaf _ => 0
  | .wrapper _ inner => height inner + 1
  | .series _ items => heightOfItems items
  | .object fields _ => heightOfFields fields
termination_by structural shape => shape

/-- The longest chain that begins with one of the structs. -/
def heightOfItems : List Struct → Nat
  | [] => 0
  | s :: rest => max (height s + 1) (heightOfItems rest)
termination_by structural items => items

/-- The longest chain that begins with the struct of one of the fields. -/
def heightOfFields : List (String × Struct) → Nat
  | [] => 0
  | (_, s) :: rest => max (height s + 1) (heightOfFields rest)
termination_by structural fields => fields

end

theorem heightOfItems_le {items : List Struct} {n : Nat} :
    heightOfItems items ≤ n ↔ ∀ s ∈ items, s.height < n := by
  induction items with
  | nil => exact iff_of_true (Nat.zero_le n) (by simp)
  | cons s rest ih =>
    rw [List.forall_mem_cons, ← ih]
    exact Nat.max_le

theorem heightOfFields_le {fields : List (String × Struct)} {n : Nat} :
    heightOfFields fields ≤ n ↔ ∀ field ∈ fields, field.2.height < n := by
  induction fields with
  | nil => exact iff_of_true (Nat.zero_le n) (by simp)
  | cons field rest ih =>
    rw [List.forall_mem_cons, ← ih]
    exact Nat.max_le

/-- A struct is one higher than the highest of its parts, and 0 without parts. -/
theorem height_le {s : Struct} {n : Nat} : s.height ≤ n ↔ ∀ part ∈ s.shape.parts, part.height < n := by
  obtain ⟨shape, m⟩ := s
  show heightOfShape shape ≤ n ↔ ∀ part ∈ shape.parts, part.height < n
  cases shape with
  | leaf l => exact iff_of_true (Nat.zero_le n) (by simp [Shape.parts])
  | wrapper w inner =>
    rw [Shape.parts, List.forall_mem_singleton]
    exact Iff.rfl
  | series k items => exact heightOfItems_le
  | object fields policy =>
    rw [heightOfShape, heightOfFields_le, Shape.parts, List.forall_mem_map]

theorem height_part_lt {s part : Struct} (mem : part ∈ s.shape.parts) : part.height < s.height :=
  height_le.mp (Nat.le_refl _) part mem

end Struct

/-! ## Frames -/

/-- A shape with a gap in the place of one of the structs inside. -/
inductive Gap where
  | wrapper (wrapper : Wrapper)
  | series (series : Series) (before after : List Struct)
  | object (before : List (String × Struct)) (name : String) (after : List (String × Struct))
    (unknownKeys : UnknownKeys)

namespace Gap

/-- The shape with a struct in its gap. -/
def fill : Gap → Struct → Shape Struct
  | .wrapper w, s => .wrapper w s
  | .series k before after, s => .series k (before ++ s :: after)
  | .object before name after policy, s => .object (before ++ (name, s) :: after) policy

/-- The step from the shape to its gap, as errors tell it; wrappers take none. -/
def address : Gap → Place
  | .wrapper _ => []
  | .series _ before _ => [Nat.repr before.length]
  | .object _ name _ _ => [name]

theorem mem_parts_fill (gap : Gap) (s : Struct) : s ∈ (gap.fill s).parts := by
  cases gap <;> simp [fill, Shape.parts]

/-- Each part of a shape stands in a gap. -/
theorem exists_fill {shape : Shape Struct} {s : Struct} (h : s ∈ shape.parts) :
    ∃ gap : Gap, shape = gap.fill s := by
  cases shape with
  | leaf l => cases h
  | wrapper w inner =>
    obtain rfl := List.mem_singleton.mp h
    exact ⟨.wrapper w, rfl⟩
  | series k items =>
    obtain ⟨before, after, rfl⟩ := List.append_of_mem h
    exact ⟨.series k before after, rfl⟩
  | object fields policy =>
    obtain ⟨⟨name, s⟩, hfield, rfl⟩ := List.mem_map.mp h
    obtain ⟨before, after, rfl⟩ := List.append_of_mem hfield
    exact ⟨.object before name after policy, rfl⟩

end Gap

/-- A struct with a gap in its shape. -/
structure Frame where
  gap : Gap
  metadata : Metadata

namespace Frame

/-- The struct, given what stands in the gap. -/
def fill (frame : Frame) (s : Struct) : Struct := .mk (frame.gap.fill s) frame.metadata

/-- The struct with further frames inside each other, the first one outermost, around another. -/
def plug (frames : List Frame) (s : Struct) : Struct := frames.foldr fill s

/-- The steps through all frames, as errors tell them. -/
def address (frames : List Frame) : Place := frames.flatMap fun frame => frame.gap.address

@[simp] theorem plug_nil (s : Struct) : plug [] s = s := rfl

@[simp] theorem plug_cons (frame : Frame) (frames : List Frame) (s : Struct) :
    plug (frame :: frames) s = frame.fill (plug frames s) := rfl

@[simp] theorem address_cons (frame : Frame) (frames : List Frame) :
    address (frame :: frames) = frame.gap.address ++ address frames := rfl

theorem mem_parts (frame : Frame) (s : Struct) : s ∈ (frame.fill s).shape.parts :=
  frame.gap.mem_parts_fill s

/-- A struct stands in another just if there are frames that lead to it. -/
theorem within_iff_plug {s t : Struct} : Struct.Within t s ↔ ∃ frames, s = plug frames t := by
  constructor
  · intro h
    induction h with
    | refl => exact ⟨[], rfl⟩
    | @step part s mem _ ih =>
      obtain ⟨frames, rfl⟩ := ih
      obtain ⟨gap, hgap⟩ := Gap.exists_fill mem
      obtain ⟨shape, m⟩ := s
      obtain rfl : shape = _ := hgap
      exact ⟨⟨gap, m⟩ :: frames, rfl⟩
  · rintro ⟨frames, rfl⟩
    induction frames with
    | nil => exact .refl t
    | cons frame rest ih => exact .step (frame.mem_parts _) ih

/-- A struct is as high as any struct inside it together with the frames around that. -/
theorem height_plug (frames : List Frame) (s : Struct) :
    frames.length + s.height ≤ (plug frames s).height := by
  induction frames with
  | nil => simp
  | cons frame rest ih =>
    have hlt := Struct.height_part_lt (frame.mem_parts (plug rest s))
    rw [plug_cons, List.length_cons]
    omega

end Frame

end ShapeSchema
