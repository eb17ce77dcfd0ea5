import ShapeSchema.Proofs.Outcome
import ShapeSchema.Proofs.Pairs
import ShapeSchema.Proofs.Struct.Parts
import ShapeSchema.Proofs.Table
import ShapeSchema.Schema.Document

/-!
# What lowering does, layer by layer

The result of lowering as an equation for each layer: the limit, the shape, the metadata. All that
the metadata adds is one patch, and whether a struct is required can be seen from the struct alone.
-/

namespace ShapeSchema

/-! ## Metadata -/

/-- What the override of a struct adds to its fragment; one that is no object adds nothing. -/
def overridePatch : Option Json → Fragment
  | some (.object patch) => patch
  | _ => []

namespace Struct

/-- Whether the struct may be absent: it is an option, or it has a default. -/
def isOptional (s : Struct) : Bool := s.isOption || s.defaultValue.isSome

/-- The default as the struct emits it, if there is a default. -/
def encodedDefault (s : Struct) : Except ConversionError (Option Json) :=
  match s.defaultValue with
  | none => .ok none
  | some value =>
    match s.encode value with
    | .ok encoded => .ok (some encoded)
    | .error e => .error (.here (.badDefault e.message))

/-- What the metadata of a struct adds to the fragment of its shape, given the encoded default. -/
def patch (s : Struct) (encoded : Option Json) : Fragment :=
  (s.deprecation.map Fragment.ofDeprecation).getD [] ++
    (encoded.map Fragment.defaultValue).getD [] ++ overridePatch (s.annotated? overrideId)

end Struct

/-- The fragment of a wrapper, made of the fragment inside; an option leaves it as it is. -/
def Wrapper.fragment : Wrapper → Fragment → Fragment
  | .option, inner => inner
  | .nullable, inner => .nullable inner
  | .array, inner => .array inner
  | .dict, inner => .dict inner

/-- What is said of a wrapper around a struct that may be absent. -/
def Wrapper.obstacle : Wrapper → Obstacle
  | .option => .nestedOption
  | .nullable => .optionalItem .null
  | .array => .optionalItem .array
  | .dict => .optionalItem .dict

theorem Node.result_withOverride (override : Option Json) (node : Node) :
    (node.withOverride override).result =
      .ok ⟨Table.merge node.schema (overridePatch override), node.required⟩ := by
  rcases override with _ | v
  · rfl
  · cases v <;> rfl

theorem Node.result_withMetadata (s : Struct) (node : Node) :
    (node.withMetadata s).result = s.encodedDefault >>= fun encoded =>
      .ok ⟨Table.merge node.schema (s.patch encoded), node.required && encoded.isNone⟩ := by
  have hmark : (node.withDeprecation s.deprecation).schema =
      Table.merge node.schema ((s.deprecation.map Fragment.ofDeprecation).getD []) ∧
      (node.withDeprecation s.deprecation).required = node.required := by
    cases s.deprecation <;> simp [Node.withDeprecation]
  simp only [Node.withMetadata, Traced.result_bind, Node.withDefault, Struct.encodedDefault]
  cases s.defaultValue with
  | none => simp [Node.result_withOverride, Struct.patch, Table.merge_append, hmark]
  | some value =>
    dsimp only
    cases s.encode value with
    | ok encoded => simp [Node.result_withOverride, Struct.patch, Table.merge_append, hmark]
    | error e => simp

namespace Struct

variable {limit depth : Nat}

/-! ## Equations -/

theorem result_leaf (l : Leaf) :
    (lowerShape limit (.leaf l) depth).result = match l.fragment? with
      | some f => .ok ⟨f, true⟩
      | none => .error (.here (.unsupported l.name)) := by
  show l.lower.result = _
  rw [Leaf.lower]
  cases l.fragment? <;> rfl

theorem lowerShape_wrapper (w : Wrapper) (inner : Struct) :
    lowerShape limit (.wrapper w inner) depth = inner.lower limit depth >>= w.lower := rfl

theorem lowerShape_series (k : Series) (items : List Struct) :
    lowerShape limit (.series k items) depth =
      lowerItems limit k.container items 0 depth >>= fun fs => pure ⟨k.fragment fs, true⟩ := rfl

theorem lowerShape_object (fields : List (String × Struct)) (policy : UnknownKeys) :
    lowerShape limit (.object fields policy) depth =
      lowerFields limit fields depth >>= fun nodes => pure ⟨objectFragment policy nodes, true⟩ := rfl

theorem lowerItems_nil (container : Container) (position : Nat) :
    lowerItems limit container [] position depth = pure [] := rfl

theorem lowerItems_cons (container : Container) (s : Struct) (rest : List Struct) (position : Nat) :
    lowerItems limit container (s :: rest) position depth =
      (s.lower limit depth >>= Node.item container).under (Nat.repr position) >>= fun f =>
        lowerItems limit container rest (position + 1) depth >>= fun fs => pure (f :: fs) := rfl

theorem lowerFields_nil : lowerFields limit [] depth = pure [] := rfl

theorem lowerFields_cons (name : String) (s : Struct) (rest : List (String × Struct)) :
    lowerFields limit ((name, s) :: rest) depth =
      (s.lower limit depth).under name >>= fun node =>
        lowerFields limit rest depth >>= fun nodes => pure ((name, node) :: nodes) := rfl

/-! ## Nodes -/

theorem lower_eq (s : Struct) : s.lower limit depth =
    visit limit depth s.kind >>= fun _ => lowerShape limit s.shape (depth + 1) >>= fun node =>
      node.withMetadata s := by
  obtain ⟨shape, m⟩ := s
  rfl

/-- A struct is lowered if it is not too deep, its shape is lowered and its default is encoded. -/
theorem result_lower (s : Struct) :
    (s.lower limit depth).result =
      if limit < depth then .error (.here (.tooDeep limit))
      else (lowerShape limit s.shape (depth + 1)).result >>= fun base =>
        s.encodedDefault >>= fun encoded =>
          .ok ⟨Table.merge base.schema (s.patch encoded), base.required && encoded.isNone⟩ := by
  rw [lower_eq, visit]
  split
  · simp
  · simp [Node.result_withMetadata]

theorem lower_eq_ok {s : Struct} {node : Node} :
    (s.lower limit depth).result = .ok node ↔
      depth ≤ limit ∧ ∃ base, (lowerShape limit s.shape (depth + 1)).result = .ok base ∧
        ∃ encoded, s.encodedDefault = .ok encoded ∧
          ⟨Table.merge base.schema (s.patch encoded), base.required && encoded.isNone⟩ = node := by
  rw [result_lower]
  by_cases h : limit < depth
  · simp [h, Nat.not_le_of_lt h]
  · simp [h, bind_eq_ok, Nat.le_of_not_lt h]

theorem encodedDefault_eq_ok {s : Struct} {encoded : Option Json} (h : s.encodedDefault = .ok encoded) :
    encoded.isSome = s.defaultValue.isSome ∧
      ∀ w, encoded = some w → ∃ v, s.defaultValue = some v ∧ s.encode v = .ok w := by
  rw [encodedDefault] at h
  split at h
  · obtain rfl : none = encoded := by simpa using h
    rename_i hnone
    simp [hnone]
  · rename_i value hvalue
    split at h
    · rename_i w hw
      obtain rfl : some w = encoded := by simpa using h
      exact ⟨by simp [hvalue], fun _ hw' => ⟨value, hvalue, Option.some.inj hw' ▸ hw⟩⟩
    · cases h

/-! ## Shapes -/

theorem item_eq_ok {container : Container} {node : Node} {f : Fragment} :
    (node.item container).result = .ok f ↔ node = ⟨f, true⟩ := by
  obtain ⟨schema, required⟩ := node
  cases required <;> simp [Node.item]

theorem lowerItems_eq_ok {container : Container} {items : List Struct} {position : Nat}
    {fs : List Fragment} :
    (lowerItems limit container items position depth).result = .ok fs ↔
      List.Forall₂ (fun s f => (s.lower limit depth).result = .ok ⟨f, true⟩) items fs := by
  induction items generalizing position fs with
  | nil => simp [lowerItems_nil, eq_comm]
  | cons s rest ih =>
    simp only [lowerItems_cons, Traced.result_bind, Traced.result_under, Traced.result_pure, bind_eq_ok,
      mapError_eq_ok, item_eq_ok, ih, List.forall₂_cons_left_iff, Except.ok.injEq]
    constructor
    · intro h
      obtain ⟨f, ⟨_, hnode, rfl⟩, fs', hrest, rfl⟩ := h
      exact ⟨f, fs', hnode, hrest, rfl⟩
    · intro h
      obtain ⟨f, fs', hs, hrest, rfl⟩ := h
      exact ⟨f, ⟨⟨f, true⟩, hs, rfl⟩, fs', hrest, rfl⟩

theorem lowerFields_eq_ok {fields : List (String × Struct)} {nodes : List (String × Node)} :
    (lowerFields limit fields depth).result = .ok nodes ↔
      List.Forall₂ (fun field out => out.1 = field.1 ∧
        (Struct.lower limit field.2 depth).result = .ok out.2) fields nodes := by
  induction fields generalizing nodes with
  | nil => simp [lowerFields_nil, eq_comm]
  | cons field rest ih =>
    obtain ⟨name, s⟩ := field
    simp only [lowerFields_cons, Traced.result_bind, Traced.result_under, Traced.result_pure, bind_eq_ok,
      mapError_eq_ok, ih, List.forall₂_cons_left_iff, Except.ok.injEq]
    constructor
    · intro h
      obtain ⟨node, hnode, nodes', hrest, rfl⟩ := h
      exact ⟨(name, node), nodes', ⟨rfl, hnode⟩, hrest, rfl⟩
    · intro h
      obtain ⟨⟨_, node⟩, nodes', ⟨rfl, hnode⟩, hrest, rfl⟩ := h
      exact ⟨node, hnode, nodes', hrest, rfl⟩

theorem result_wrapper (w : Wrapper) (inner : Node) :
    (w.lower inner).result =
      if inner.required then .ok ⟨w.fragment inner.schema, w != .option⟩
      else .error (.here w.obstacle) := by
  obtain ⟨f, required⟩ := inner
  cases w <;> cases required <;> rfl

theorem lowerShape_leaf_eq_ok {l : Leaf} {base : Node} :
    (lowerShape limit (.leaf l) depth).result = .ok base ↔
      ∃ f, l.fragment? = some f ∧ ⟨f, true⟩ = base := by
  rw [result_leaf]
  cases l.fragment? <;> simp

/-- A wrapper is lowered if what is inside it is lowered and required. -/
theorem lowerShape_wrapper_eq_ok {w : Wrapper} {inner : Struct} {base : Node} :
    (lowerShape limit (.wrapper w inner) depth).result = .ok base ↔
      ∃ f, (inner.lower limit depth).result = .ok ⟨f, true⟩ ∧
        ⟨w.fragment f, w != .option⟩ = base := by
  rw [lowerShape_wrapper, Traced.result_bind, bind_eq_ok]
  constructor
  · intro h
    obtain ⟨⟨f, required⟩, hinner, h⟩ := h
    cases required with
    | true => exact ⟨f, hinner, by simpa [result_wrapper] using h⟩
    | false => simp [result_wrapper] at h
  · intro h
    obtain ⟨f, hinner, rfl⟩ := h
    exact ⟨⟨f, true⟩, hinner, result_wrapper w _⟩

theorem lowerShape_series_eq_ok {k : Series} {items : List Struct} {base : Node} :
    (lowerShape limit (.series k items) depth).result = .ok base ↔
      ∃ fs, List.Forall₂ (fun s f => (Struct.lower limit s depth).result = .ok ⟨f, true⟩) items fs ∧
        ⟨k.fragment fs, true⟩ = base := by
  rw [lowerShape_series, Traced.result_bind, bind_eq_ok]
  simp [lowerItems_eq_ok]

theorem lowerShape_object_eq_ok {fields : List (String × Struct)} {policy : UnknownKeys}
    {base : Node} :
    (lowerShape limit (.object fields policy) depth).result = .ok base ↔
      ∃ nodes, List.Forall₂ (fun field out => out.1 = field.1 ∧
          (Struct.lower limit field.2 depth).result = .ok out.2) fields nodes ∧
        ⟨objectFragment policy nodes, true⟩ = base := by
  rw [lowerShape_object, Traced.result_bind, bind_eq_ok]
  simp [lowerFields_eq_ok]

/-- If a shape is lowered, then so are its parts. -/
theorem exists_lower_part {shape : Shape Struct} {base : Node}
    (h : (lowerShape limit shape depth).result = .ok base) {part : Struct} (mem : part ∈ shape.parts) :
    ∃ node, (part.lower limit depth).result = .ok node := by
  cases shape with
  | leaf l => cases mem
  | wrapper w inner =>
    obtain rfl := List.mem_singleton.mp mem
    obtain ⟨f, hinner, -⟩ := lowerShape_wrapper_eq_ok.mp h
    exact ⟨⟨f, true⟩, hinner⟩
  | series k items =>
    obtain ⟨fs, hitems, -⟩ := lowerShape_series_eq_ok.mp h
    obtain ⟨f, -, hf⟩ := exists_right_of_mem hitems mem
    exact ⟨⟨f, true⟩, hf⟩
  | object fields policy =>
    obtain ⟨nodes, hnodes, -⟩ := lowerShape_object_eq_ok.mp h
    obtain ⟨field, hfield, rfl⟩ := List.mem_map.mp mem
    obtain ⟨out, -, -, hout⟩ := exists_right_of_mem hnodes hfield
    exact ⟨out.2, hout⟩

/-! ## Requiredness -/

theorem lowerShape_required {s : Struct} {base : Node}
    (h : (lowerShape limit s.shape depth).result = .ok base) : base.required = !s.isOption := by
  obtain ⟨shape, m⟩ := s
  cases shape with
  | leaf l =>
    obtain ⟨f, -, rfl⟩ := lowerShape_leaf_eq_ok.mp h
    rfl
  | wrapper w inner =>
    obtain ⟨f, -, rfl⟩ := lowerShape_wrapper_eq_ok.mp h
    cases w <;> rfl
  | series k items =>
    obtain ⟨fs, -, rfl⟩ := lowerShape_series_eq_ok.mp h
    rfl
  | object fields policy =>
    obtain ⟨nodes, -, rfl⟩ := lowerShape_object_eq_ok.mp h
    rfl

/-- A lowered struct is required unless it is an option or has a default. -/
theorem lower_required {s : Struct} {node : Node} (h : (s.lower limit depth).result = .ok node) :
    node.required = !s.isOptional := by
  obtain ⟨-, base, hbase, encoded, hencoded, rfl⟩ := lower_eq_ok.mp h
  have hsome : encoded.isSome = s.defaultValue.isSome := (encodedDefault_eq_ok hencoded).1
  rw [isOptional, ← hsome, lowerShape_required hbase]
  cases encoded <;> simp

end Struct

end ShapeSchema
