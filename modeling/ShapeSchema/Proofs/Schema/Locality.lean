import ShapeSchema.Proofs.Json.Paths
import ShapeSchema.Proofs.Schema.Meaning
import ShapeSchema.Proofs.Schema.RequiredPlaces
import ShapeSchema.Proofs.Struct.Frames

/-!
# Schemas inside schemas

The schema of a struct holds, for each struct inside it, the schema that this one has on its own: what
the containers around it say of themselves stands beside the keywords that lead to it.
-/

namespace ShapeSchema

/-! ## Pointers -/

namespace Gap

/-- The steps from the schema of a shape to that of the struct in its gap. An option has no schema of
its own and takes none. -/
def pointer : Gap → List Json.Step
  | .wrapper .option => []
  | .wrapper .nullable => [.key "anyOf", .index 0]
  | .wrapper .array => [.key "items"]
  | .wrapper .dict => [.key "additionalProperties"]
  | .series k before _ => [.key k.keyword, .index before.length]
  | .object _ name _ _ => [.key "properties", .key name]

/-- But for an option, the first step takes a keyword that no metadata writes to. -/
theorem pointer_head {gap : Gap} (h : gap ≠ .wrapper .option) : ∃ keyword steps,
    gap.pointer = .key keyword :: steps ∧ keyword ∉ Reading.silentKeywords := by
  cases gap with
  | wrapper w =>
    cases w with
    | option => exact absurd rfl h
    | _ => exact ⟨_, _, rfl, by decide⟩
  | series k before after => exact ⟨_, _, rfl, by cases k <;> decide⟩
  | object before name after policy => exact ⟨_, _, rfl, by decide⟩

end Gap

namespace Frame

/-- The steps through all frames, in the schema. -/
def pointer (frames : List Frame) : List Json.Step := frames.flatMap fun frame => frame.gap.pointer

@[simp] theorem pointer_nil : pointer [] = [] := rfl

@[simp] theorem pointer_cons (frame : Frame) (frames : List Frame) :
    pointer (frame :: frames) = frame.gap.pointer ++ pointer frames := rfl

/-- The innermost frame is no option. -/
def EndsOutsideOption (frames : List Frame) : Prop :=
  ∀ frame, frames.getLast? = some frame → frame.gap ≠ .wrapper .option

theorem EndsOutsideOption.tail {frame : Frame} {rest : List Frame}
    (h : EndsOutsideOption (frame :: rest)) : EndsOutsideOption rest := by
  intro last hlast
  exact h last (by rw [List.getLast?_cons, hlast, Option.getD_some])

/-- Options in front are passed over, until there is a keyword. -/
theorem pointer_head {frame : Frame} {rest : List Frame} (h : EndsOutsideOption (frame :: rest)) :
    ∃ keyword steps, pointer (frame :: rest) = .key keyword :: steps ∧
      keyword ∉ Reading.silentKeywords := by
  induction rest generalizing frame with
  | nil =>
    obtain ⟨keyword, steps, hpointer, hkeyword⟩ := Gap.pointer_head (h frame rfl)
    exact ⟨keyword, steps, by rw [pointer_cons, pointer_nil, List.append_nil, hpointer], hkeyword⟩
  | cons second rest ih =>
    by_cases hoption : frame.gap = .wrapper .option
    · obtain ⟨keyword, steps, hpointer, hkeyword⟩ := ih h.tail
      exact ⟨keyword, steps, by rw [pointer_cons, hoption, hpointer]; rfl, hkeyword⟩
    · obtain ⟨keyword, steps, hpointer, hkeyword⟩ := Gap.pointer_head hoption
      exact ⟨keyword, steps ++ pointer (second :: rest), by rw [pointer_cons, hpointer]; rfl, hkeyword⟩

end Frame

namespace Struct

variable {limit depth : Nat}

/-! ## Depths -/

theorem lower_shift_of_shape {n : Nat} {s : Struct}
    (h : ∀ base, (lowerShape (limit + n) s.shape (depth + 1 + n)).result = .ok base ↔
      (lowerShape limit s.shape (depth + 1)).result = .ok base) {node : Node} :
    (s.lower (limit + n) (depth + n)).result = .ok node ↔ (s.lower limit depth).result = .ok node := by
  rw [lower_eq_ok, lower_eq_ok, Nat.add_le_add_iff_right, Nat.add_right_comm depth n]
  simp only [h]

/-- What a struct is lowered to depends only on how far it is from the limit. -/
theorem lower_shift (n : Nat) {s : Struct} {node : Node} :
    (s.lower (limit + n) (depth + n)).result = .ok node ↔ (s.lower limit depth).result = .ok node := by
  induction s using Struct.induction generalizing depth node with
  | leaf l m => exact lower_shift_of_shape fun base => Iff.rfl
  | wrapper w inner m ih =>
    refine lower_shift_of_shape fun base => ?_
    simp only [shape, lowerShape_wrapper_eq_ok, ih]
  | series k items m ih =>
    refine lower_shift_of_shape fun base => ?_
    rw [shape, lowerShape_series_eq_ok, lowerShape_series_eq_ok]
    exact exists_congr fun fs => and_congr_left fun _ =>
      forall₂_congr_of_mem fun s hs f => ih s hs
  | object fields policy m ih =>
    refine lower_shift_of_shape fun base => ?_
    rw [shape, lowerShape_object_eq_ok, lowerShape_object_eq_ok]
    exact exists_congr fun nodes => and_congr_left fun _ =>
      forall₂_congr_of_mem fun field hfield out => and_congr_right fun _ => ih field hfield

/-- A struct at a depth is lowered as at the root, under a limit that is lower by the depth. -/
theorem node_of_lower {s : Struct} {node : Node} (h : (s.lower limit depth).result = .ok node) :
    depth ≤ limit ∧ (s.node ⟨limit - depth⟩).result = .ok node := by
  have hdepth : depth ≤ limit := (lower_eq_ok.mp h).1
  refine ⟨hdepth, (lower_shift depth).mp ?_⟩
  rwa [Nat.zero_add, Nat.sub_add_cancel hdepth]

/-! ## What stands at a pointer -/

/-- In the schema of a wrapper. -/
theorem at?_wrapper (w : Wrapper) (f : Fragment) :
    (Json.object (w.fragment f)).at? (Gap.wrapper w).pointer = some (.object f) := by
  cases w <;> rfl

/-- In the schema of a series. -/
theorem at?_series (k : Series) {fs : List Fragment} {f : Fragment} {before after : List Struct}
    (hf : fs[before.length]? = some f) :
    (Json.object (k.fragment fs)).at? (Gap.series k before after).pointer = some (.object f) := by
  have hlist : (Fragment.list fs).at? [.index before.length] = some (.object f) := by
    rw [Fragment.list, Json.at?, Json.child?, List.getElem?_map, hf]
    rfl
  rw [Gap.pointer, Json.at?_key]
  cases k <;> exact hlist

/-- In the schema of an object. -/
theorem at?_object {policy policy' : UnknownKeys} {nodes : List (String × Node)}
    {before after : List (String × Struct)} {name : String} {inner : Node}
    (hnodes : Table.Distinct nodes) (hinner : (name, inner) ∈ nodes) :
    (Json.object (objectFragment policy nodes)).at? (Gap.object before name after policy').pointer =
      some (.object inner.schema) := by
  have hproperties := hnodes.map fun node : Node => Json.object node.schema
  have hfind : Table.find? name (Table.ofList (nodes.map fun node => (node.1, Json.object node.2.schema))) =
      some (.object inner.schema) := by
    rw [hproperties.ofList_eq]
    exact hproperties.find?_eq (List.mem_map_of_mem hinner)
  show (Table.find? name _).bind _ = _
  rw [hfind]
  rfl

/-- The schema of a shape has at its pointer the schema of the struct in its gap. -/
theorem at?_fill {gap : Gap} {m : Metadata} {s : Struct} (hs : (Struct.mk (gap.fill s) m).WellFormed)
    {base : Node} (h : (lowerShape limit (gap.fill s) depth).result = .ok base) :
    ∃ inner, (s.lower limit depth).result = .ok inner ∧
      (Json.object base.schema).at? gap.pointer = some (.object inner.schema) := by
  cases gap with
  | wrapper w =>
    obtain ⟨f, hinner, rfl⟩ := lowerShape_wrapper_eq_ok.mp h
    exact ⟨⟨f, true⟩, hinner, at?_wrapper w f⟩
  | series k before after =>
    obtain ⟨fs, hfs, rfl⟩ := lowerShape_series_eq_ok.mp h
    have hitem : (before ++ s :: after)[before.length]? = some s := by simp
    obtain ⟨f, hf, hinner⟩ := exists_left_of_getElem? hfs.flip hitem
    exact ⟨⟨f, true⟩, hinner, at?_series k hf⟩
  | object before name after policy =>
    obtain ⟨nodes, hnodes, rfl⟩ := lowerShape_object_eq_ok.mp h
    have hfield : (name, s) ∈ before ++ (name, s) :: after := by simp
    obtain ⟨⟨_, inner⟩, hmem, rfl, hinner⟩ := exists_right_of_mem hnodes hfield
    have hdistinct : Table.Distinct nodes := by
      rw [Table.Distinct, Table.keys_eq_of_forall₂ hnodes fun _ _ h => h.1]
      exact hs.1
    exact ⟨inner, hinner, at?_object hdistinct hmem⟩

/-- Through any frames, if none of them adds to its schema by an override and the innermost is no
option. -/
theorem at?_plug {frames : List Frame} {s : Struct} {node : Node}
    (hs : (Frame.plug frames s).WellFormed)
    (hraw : ∀ frame ∈ frames, overridePatch (Table.find? overrideId frame.metadata.annotations) = [])
    (hend : Frame.EndsOutsideOption frames)
    (h : ((Frame.plug frames s).lower limit depth).result = .ok node) :
    ∃ inner, (s.lower limit (depth + frames.length)).result = .ok inner ∧
      (Json.object node.schema).at? (Frame.pointer frames) = some (.object inner.schema) := by
  induction frames generalizing depth node with
  | nil => exact ⟨node, h, rfl⟩
  | cons frame rest ih =>
    obtain ⟨hframe, hrest⟩ := List.forall_mem_cons.mp hraw
    obtain ⟨-, base, hbase, encoded, -, rfl⟩ := lower_eq_ok.mp h
    obtain ⟨outer, houter, hat⟩ := at?_fill hs hbase
    obtain ⟨inner, hinner, hpath⟩ := ih (hs.part (frame.mem_parts _)) hrest hend.tail houter
    refine ⟨inner, ?_, ?_⟩
    · rwa [List.length_cons, Nat.add_comm rest.length, ← Nat.add_assoc]
    · have hbasePath : (Json.object base.schema).at? (Frame.pointer (frame :: rest)) =
          some (.object inner.schema) := by
        rw [Frame.pointer_cons, Json.at?_append, hat]
        exact hpath
      -- The metadata of the frame leaves the first keyword of the pointer alone.
      obtain ⟨keyword, steps, hpointer, hkeyword⟩ := Frame.pointer_head hend
      have hplain : overridePatch ((frame.fill (Frame.plug rest s)).annotated? overrideId) = [] := hframe
      have hfresh : keyword ∉ Table.keys ((frame.fill (Frame.plug rest s)).patch encoded) :=
        fun hmem => hkeyword (keys_patch hplain encoded keyword hmem)
      rw [hpointer, Json.at?_key] at hbasePath ⊢
      rwa [Frame.plug_cons, Table.find?_merge_of_not_mem hfresh]

end Struct

/-- **Schemas are made locally.** In the schema of a struct, the pointer of a struct inside it leads to
the very schema that this one has on its own, under a limit that is lower by its depth, and it does have
one. The containers in between may not have overrides, and the innermost may not be an option, which has
its own metadata in the schema of what is inside it. -/
theorem subschema_is_local (frames : List Frame) (s : Struct) (limit : Nat) (node : Node)
    (hs : (Frame.plug frames s).WellFormed)
    (hraw : ∀ frame ∈ frames, overridePatch (Table.find? overrideId frame.metadata.annotations) = [])
    (hend : Frame.EndsOutsideOption frames)
    (hnode : ((Frame.plug frames s).node ⟨limit⟩).result = .ok node) :
    frames.length ≤ limit ∧ ∃ inner, (s.node ⟨limit - frames.length⟩).result = .ok inner ∧
      (Json.object node.schema).at? (Frame.pointer frames) = some (.object inner.schema) := by
  obtain ⟨inner, hinner, hat⟩ := Struct.at?_plug hs hraw hend hnode
  rw [Nat.zero_add] at hinner
  obtain ⟨hlength, hinner⟩ := Struct.node_of_lower hinner
  exact ⟨hlength, inner, hinner, hat⟩

/-- The containers around the tags of an article: fields, an option with a default, and an array. -/
def articleFrames : List Frame :=
  [⟨.object [("title", .string)] "tags" [] .strict, { deprecation := some .flagged }⟩,
    ⟨.wrapper .option, { default := some (.array []) }⟩, ⟨.wrapper .array, {}⟩]

theorem subschema_is_local_tags :
    let tag : Struct := Struct.deprecatedWithMessage "use topics" .string
    let path : List Json.Step := [.key "properties", .key "tags", .key "items"]
    ∃ node inner, ((Frame.plug articleFrames tag).node ⟨3⟩).result = .ok node ∧
      (tag.node ⟨0⟩).result = .ok inner ∧
      (Json.object node.schema).at? path = some (.object inner.schema) := by
  intro tag path
  have hs : (Frame.plug articleFrames tag).WellFormed := by
    simp [articleFrames, tag, Frame.fill, Gap.fill, Struct.deprecatedWithMessage, Struct.mapMetadata,
      Struct.WellFormed, Struct.WellFormedFields, Struct.string, Struct.leaf, Leaf.InRange,
      Metadata.WellFormed, Table.Distinct, Json.WellFormed, Json.WellFormedItems]
  have hraw : ∀ frame ∈ articleFrames,
      overridePatch (Table.find? overrideId frame.metadata.annotations) = [] := by
    simp [articleFrames, Table.find?, overridePatch]
  have hend : Frame.EndsOutsideOption articleFrames := by
    simp [Frame.EndsOutsideOption, articleFrames]
  have hnode : ((Frame.plug articleFrames tag).node ⟨3⟩).result = .ok _ := rfl
  obtain ⟨-, inner, hinner, hat⟩ := subschema_is_local articleFrames tag 3 _ hs hraw hend hnode
  exact ⟨_, inner, hnode, hinner, hat⟩

end ShapeSchema
