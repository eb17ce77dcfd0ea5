import ShapeSchema.Proofs.Schema.Encoding
import ShapeSchema.Proofs.Schema.Lowering

/-!
# What metadata has no influence on

`Struct.eachMetadata` changes the metadata of all nodes of a struct. Two structs agree in some part
of their metadata if they become the same once the rest is erased. Encoding does not look at
metadata at all. Whether lowering fails and where, and what is required, depends on the defaults
alone; the schema depends besides on the deprecation marks and on the overrides that are objects.
-/

namespace ShapeSchema

namespace Struct

mutual

/-- The metadata of the struct and of every struct inside it changed by the same function. -/
def eachMetadata (f : Metadata → Metadata) : Struct → Struct
  | .mk shape m => .mk (eachMetadataOfShape f shape) (f m)
termination_by structural s => s

/-- The metadata of every struct inside the shape changed. -/
def eachMetadataOfShape (f : Metadata → Metadata) : Shape Struct → Shape Struct
  | .leaf l => .leaf l
  | .wrapper w inner => .wrapper w (eachMetadata f inner)
  | .series k items => .series k (eachMetadataOfItems f items)
  | .object fields policy => .object (eachMetadataOfFields f fields) policy
termination_by structural shape => shape

/-- The metadata of every struct of the list changed. -/
def eachMetadataOfItems (f : Metadata → Metadata) : List Struct → List Struct
  | [] => []
  | s :: rest => eachMetadata f s :: eachMetadataOfItems f rest
termination_by structural items => items

/-- The metadata of every field's struct changed. -/
def eachMetadataOfFields (f : Metadata → Metadata) :
    List (String × Struct) → List (String × Struct)
  | [] => []
  | (name, s) :: rest => (name, eachMetadata f s) :: eachMetadataOfFields f rest
termination_by structural fields => fields

end

variable {f : Metadata → Metadata}

theorem eachMetadata_leaf (l : Leaf) (m : Metadata) :
    (Struct.mk (.leaf l) m).eachMetadata f = .mk (.leaf l) (f m) := rfl

theorem eachMetadata_wrapper (w : Wrapper) (inner : Struct) (m : Metadata) :
    (Struct.mk (.wrapper w inner) m).eachMetadata f =
      .mk (.wrapper w (inner.eachMetadata f)) (f m) := rfl

theorem eachMetadata_series (k : Series) (items : List Struct) (m : Metadata) :
    (Struct.mk (.series k items) m).eachMetadata f =
      .mk (.series k (items.map (eachMetadata f))) (f m) := by
  have hitems : eachMetadataOfItems f items = items.map (eachMetadata f) := by
    induction items with
    | nil => rfl
    | cons s rest ih => exact congrArg (s.eachMetadata f :: ·) ih
  rw [← hitems]
  rfl

theorem eachMetadata_object (fields : List (String × Struct)) (policy : UnknownKeys)
    (m : Metadata) :
    (Struct.mk (.object fields policy) m).eachMetadata f =
      .mk (.object (fields.map fun field => (field.1, field.2.eachMetadata f)) policy) (f m) := by
  have hfields : eachMetadataOfFields f fields =
      fields.map fun field => (field.1, field.2.eachMetadata f) := by
    induction fields with
    | nil => rfl
    | cons field rest ih => exact congrArg ((field.1, field.2.eachMetadata f) :: ·) ih
  rw [← hfields]
  rfl

/-! ## Encoding -/

theorem isOption_eachMetadata (s : Struct) : (s.eachMetadata f).isOption = s.isOption := by
  obtain ⟨shape, m⟩ := s
  cases shape with
  | wrapper w inner => cases w <;> rfl
  | _ => rfl

theorem name_eachMetadata (s : Struct) : (s.eachMetadata f).name = s.name := by
  induction s using Struct.induction with
  | leaf l m => rfl
  | wrapper w inner m ih =>
    show w.label ++ "(" ++ (inner.eachMetadata f).name ++ ")" = _
    rw [ih]
    rfl
  | series k items m ih =>
    have hnames : names (items.map (eachMetadata f)) = names items := by
      induction items with
      | nil => rfl
      | cons s rest ihrest =>
        show (s.eachMetadata f).name :: names (rest.map (eachMetadata f)) = _
        rw [ih s (by simp), ihrest fun t ht => ih t (by simp [ht])]
        rfl
    rw [eachMetadata_series]
    show k.label ++ "(" ++ k.separator.intercalate (names (items.map (eachMetadata f))) ++ ")" = _
    rw [hnames]
    rfl
  | object fields policy m ih =>
    rw [eachMetadata_object]
    rfl

theorem encodeTuple_eachMetadata {items : List Struct}
    (h : ∀ s ∈ items, (s.eachMetadata f).encode = s.encode) (position : Nat) (vs : List Json) :
    encodeTuple (items.map (eachMetadata f)) position vs = encodeTuple items position vs := by
  induction items generalizing position vs with
  | nil => rfl
  | cons s rest ih =>
    cases vs with
    | nil => rfl
    | cons v vs =>
      rw [List.map_cons, encodeTuple_cons, encodeTuple_cons, h s (by simp),
        ih fun t ht => h t (by simp [ht])]

theorem encodeUnion_eachMetadata {variants : List Struct}
    (h : ∀ s ∈ variants, (s.eachMetadata f).encode = s.encode) (v : Json) :
    encodeUnion (variants.map (eachMetadata f)) v = encodeUnion variants v := by
  induction variants with
  | nil => rfl
  | cons s rest ih =>
    rw [List.map_cons, encodeUnion_cons, encodeUnion_cons, h s (by simp),
      ih fun t ht => h t (by simp [ht])]

theorem encodeFields_eachMetadata {fields : List (String × Struct)}
    (h : ∀ field ∈ fields, (field.2.eachMetadata f).encode = field.2.encode)
    (entries out : Table String Json) :
    encodeFields (fields.map fun field => (field.1, field.2.eachMetadata f)) entries out =
      encodeFields fields entries out := by
  induction fields generalizing out with
  | nil => rfl
  | cons field rest ih =>
    obtain ⟨name, s⟩ := field
    have hs : (s.eachMetadata f).encode = s.encode := h (name, s) (by simp)
    simp only [List.map_cons, encodeFields_cons, hs, isOption_eachMetadata,
      ih fun t ht => h t (by simp [ht])]

/-- **Encoding does not look at metadata**, neither for what it emits nor in its errors. -/
theorem encode_eachMetadata (s : Struct) : (s.eachMetadata f).encode = s.encode := by
  induction s using Struct.induction with
  | leaf l m => rfl
  | wrapper w inner m ih =>
    have hname := name_eachMetadata (f := f) (.mk (.wrapper w inner) m)
    rw [eachMetadata_wrapper] at hname ⊢
    funext v
    cases w with
    | option | nullable =>
      show (if v.isNull then _ else (inner.eachMetadata f).encode v) = _
      rw [ih]
      rfl
    | array =>
      cases v with
      | array vs => rw [encode_array, encode_array, ih]
      | _ => exact congrArg (fun name => Encoded.fail (.mismatch name _)) hname
    | dict =>
      cases v with
      | object entries => rw [encode_dict, encode_dict, ih]
      | _ => exact congrArg (fun name => Encoded.fail (.mismatch name _)) hname
  | series k items m ih =>
    have hname := name_eachMetadata (f := f) (.mk (.series k items) m)
    rw [eachMetadata_series] at hname ⊢
    funext v
    cases k with
    | tuple =>
      cases v with
      | array vs => rw [encode_tuple, encode_tuple, encodeTuple_eachMetadata ih, List.length_map]
      | _ => exact congrArg (fun name => Encoded.fail (.mismatch name _)) hname
    | union => rw [encode_union, encode_union, encodeUnion_eachMetadata ih]
  | object fields policy m ih =>
    have hname := name_eachMetadata (f := f) (.mk (.object fields policy) m)
    have hcontains : ∀ key, Table.contains key
        (fields.map fun field => (field.1, field.2.eachMetadata f)) = Table.contains key fields := by
      intro key
      rw [Bool.eq_iff_iff, Table.contains_iff, Table.contains_iff, Table.keys, Table.keys,
        List.map_map]
      rfl
    rw [eachMetadata_object] at hname ⊢
    funext v
    cases v with
    | object entries =>
      simp only [encode_object, encodeFields_eachMetadata ih, hcontains]
    | _ => exact congrArg (fun name => Encoded.fail (.mismatch name _)) hname

/-! ## Lowering -/

variable {limit depth : Nat}

/-- The change leaves all defaults as they are. -/
def KeepsDefaults (f : Metadata → Metadata) : Prop := ∀ m, (f m).default = m.default

/-- The change leaves the marks and the effective overrides as they are. -/
def KeepsPatches (f : Metadata → Metadata) : Prop :=
  ∀ m, (f m).deprecation = m.deprecation ∧
    overridePatch (Table.find? overrideId (f m).annotations) =
      overridePatch (Table.find? overrideId m.annotations)

/-- What lowering gives after the change and before it: both required or both not, and the same
node if the change leaves alone what is merged into schemas. -/
def Agree (f : Metadata → Metadata) (after before : Node) : Prop :=
  after.required = before.required ∧ (KeepsPatches f → after = before)

theorem encodedDefault_eachMetadata (hf : KeepsDefaults f) (s : Struct) :
    (s.eachMetadata f).encodedDefault = s.encodedDefault := by
  have hdefault : (s.eachMetadata f).defaultValue = s.defaultValue := by
    obtain ⟨shape, m⟩ := s
    exact hf m
  rw [encodedDefault, encodedDefault, hdefault, encode_eachMetadata]

theorem patch_eachMetadata (hf : KeepsPatches f) (s : Struct) (encoded : Option Json) :
    (s.eachMetadata f).patch encoded = s.patch encoded := by
  obtain ⟨shape, m⟩ := s
  obtain ⟨hmark, hoverride⟩ := hf m
  show ((f m).deprecation.map Fragment.ofDeprecation).getD [] ++ _ ++
    overridePatch (Table.find? overrideId (f m).annotations) = _
  rw [hmark, hoverride]
  rfl

theorem parallel_lower_of_shape (hf : KeepsDefaults f) {s : Struct}
    (h : Parallel Eq (Agree f) (lowerShape limit (s.eachMetadata f).shape (depth + 1)).result
      (lowerShape limit s.shape (depth + 1)).result) :
    Parallel Eq (Agree f) ((s.eachMetadata f).lower limit depth).result
      (s.lower limit depth).result := by
  rw [result_lower, result_lower, encodedDefault_eachMetadata hf]
  split
  · exact .error rfl
  · refine h.bind fun after before hagree => ?_
    obtain ⟨hrequired, hsame⟩ := hagree
    cases s.encodedDefault with
    | error e => exact .error rfl
    | ok encoded =>
      refine .ok ⟨congrArg (· && encoded.isNone) hrequired, fun hpatches => ?_⟩
      rw [hsame hpatches, patch_eachMetadata hpatches]

theorem parallel_item {after before : Node} (h : Agree f after before) (container : Container) :
    Parallel Eq (fun a b => KeepsPatches f → a = b) (after.item container).result
      (before.item container).result := by
  obtain ⟨hrequired, hsame⟩ := h
  rw [Node.item, Node.item, hrequired]
  cases before.required with
  | true => exact .ok fun hpatches => by rw [hsame hpatches]
  | false => exact .error rfl

theorem parallel_items (container : Container) {items : List Struct} {position : Nat}
    (h : ∀ s ∈ items, Parallel Eq (Agree f) ((eachMetadata f s).lower limit depth).result
      (Struct.lower limit s depth).result) :
    Parallel Eq (fun a b => KeepsPatches f → a = b)
      (lowerItems limit container (items.map (eachMetadata f)) position depth).result
      (lowerItems limit container items position depth).result := by
  induction items generalizing position with
  | nil => exact .ok fun _ => rfl
  | cons s rest ih =>
    simp only [List.map_cons, lowerItems_cons, Traced.result_bind, Traced.result_under]
    refine Parallel.bind (Parallel.mapError ((h s (by simp)).bind fun after before hagree =>
      parallel_item hagree container) (by rintro e _ rfl; rfl)) fun a b hab => ?_
    refine (ih fun t ht => h t (by simp [ht])).bind fun as bs habs => ?_
    exact .ok fun hpatches => by rw [hab hpatches, habs hpatches]

theorem parallel_fields {fields : List (String × Struct)}
    (h : ∀ field ∈ fields, Parallel Eq (Agree f) ((field.2.eachMetadata f).lower limit depth).result
      (field.2.lower limit depth).result) :
    Parallel Eq (fun a b => KeepsPatches f → a = b)
      (lowerFields limit (fields.map fun field => (field.1, field.2.eachMetadata f)) depth).result
      (lowerFields limit fields depth).result := by
  induction fields with
  | nil => exact .ok fun _ => rfl
  | cons field rest ih =>
    obtain ⟨name, s⟩ := field
    simp only [List.map_cons, lowerFields_cons, Traced.result_bind, Traced.result_under]
    refine Parallel.bind (Parallel.mapError (h (name, s) (by simp)) (by rintro e _ rfl; rfl))
      fun after before hagree => ?_
    refine (ih fun t ht => h t (by simp [ht])).bind fun as bs habs => ?_
    exact .ok fun hpatches => by rw [hagree.2 hpatches, habs hpatches]

/-- A change that leaves the defaults alone does not change how lowering goes. -/
theorem parallel_lower (hf : KeepsDefaults f) (s : Struct) (depth : Nat) :
    Parallel Eq (Agree f) ((s.eachMetadata f).lower limit depth).result
      (s.lower limit depth).result := by
  induction s using Struct.induction generalizing depth with
  | leaf l m =>
    refine parallel_lower_of_shape hf ?_
    rw [eachMetadata_leaf, Struct.shape, Struct.shape, result_leaf]
    cases l.fragment? with
    | some fragment => exact .ok ⟨rfl, fun _ => rfl⟩
    | none => exact .error rfl
  | wrapper w inner m ih =>
    refine parallel_lower_of_shape hf ?_
    rw [eachMetadata_wrapper, Struct.shape, Struct.shape, lowerShape_wrapper, lowerShape_wrapper,
      Traced.result_bind, Traced.result_bind]
    refine (ih _).bind fun after before hagree => ?_
    obtain ⟨hrequired, hsame⟩ := hagree
    rw [result_wrapper, result_wrapper, hrequired]
    cases before.required with
    | true => exact .ok ⟨rfl, fun hpatches => by rw [hsame hpatches]⟩
    | false => exact .error rfl
  | series k items m ih =>
    refine parallel_lower_of_shape hf ?_
    rw [eachMetadata_series, Struct.shape, Struct.shape, lowerShape_series, lowerShape_series,
      Traced.result_bind, Traced.result_bind]
    refine (parallel_items k.container fun s hs => ih s hs _).bind fun as bs habs => ?_
    exact .ok ⟨rfl, fun hpatches => by rw [habs hpatches]⟩
  | object fields policy m ih =>
    refine parallel_lower_of_shape hf ?_
    rw [eachMetadata_object, Struct.shape, Struct.shape, lowerShape_object, lowerShape_object,
      Traced.result_bind, Traced.result_bind]
    refine (parallel_fields fun field hfield => ih field hfield _).bind fun as bs habs => ?_
    exact .ok ⟨rfl, fun hpatches => by rw [habs hpatches]⟩

theorem parallel_node (hf : KeepsDefaults f) (config : Config) (s : Struct) :
    Parallel Eq (Agree f) ((s.eachMetadata f).node config).result (s.node config).result :=
  parallel_lower hf s 0

end Struct

/-! ## Two structs -/

/-- The metadata with nothing but the default. -/
def Metadata.defaultOnly (m : Metadata) : Metadata := { default := m.default }

/-- The metadata with no annotation but the override, if that is an object. -/
def Metadata.patchOnly (m : Metadata) : Metadata :=
  { m with annotations := match Table.find? overrideId m.annotations with
    | some (.object patch) => [(overrideId, .object patch)]
    | _ => [] }

theorem Struct.keepsPatches_patchOnly : Struct.KeepsPatches Metadata.patchOnly := by
  intro m
  refine ⟨rfl, ?_⟩
  rw [Metadata.patchOnly]
  dsimp only
  split
  · rename_i patch h
    rw [h]
    rfl
  · rename_i h
    rw [overridePatch.eq_def (Table.find? _ m.annotations)]
    split
    · rename_i patch hpatch
      exact absurd hpatch (h patch)
    · rfl

/-- **Annotations do not interfere.** Structs that differ in deprecation marks and annotations only, at
any nodes, are lowered with the same error, or both without one and then equally required. If the
marks are the same too, and the overrides as far as they are objects, then the outcomes are the
same. And whatever their metadata, they encode alike. -/
theorem annotations_do_not_interfere (s s' : Struct) (config : Config) :
    (s.eachMetadata Metadata.defaultOnly = s'.eachMetadata Metadata.defaultOnly →
      (∃ e, (s.node config).result = .error e ∧ (s'.node config).result = .error e) ∨
      ∃ node node', (s.node config).result = .ok node ∧ (s'.node config).result = .ok node' ∧
        node.required = node'.required) ∧
    (s.eachMetadata Metadata.patchOnly = s'.eachMetadata Metadata.patchOnly →
      (s.node config).result = (s'.node config).result) ∧
    (s.eachMetadata (fun _ => {}) = s'.eachMetadata (fun _ => {}) →
      ∀ v, s.encode v = s'.encode v) := by
  refine ⟨fun h => ?_, fun h => ?_, fun h v => ?_⟩
  · -- Both outcomes go the way of the struct that remains of either.
    have hkeeps : Struct.KeepsDefaults Metadata.defaultOnly := fun _ => rfl
    have hs := Struct.parallel_node hkeeps config s
    have hs' := Struct.parallel_node hkeeps config s'
    rw [h] at hs
    refine (hs.common hs').imp id fun hnodes => ?_
    obtain ⟨_, node, node', hnode, hnode', hagree, hagree'⟩ := hnodes
    exact ⟨node, node', hnode, hnode', hagree.1.symm.trans hagree'.1⟩
  · have hkeeps : Struct.KeepsDefaults Metadata.patchOnly := fun _ => rfl
    have hsame : ∀ t : Struct, ((t.eachMetadata Metadata.patchOnly).node config).result =
        (t.node config).result := fun t =>
      ((Struct.parallel_node hkeeps config t).imp (fun _ _ he => he)
        fun _ _ hagree => hagree.2 Struct.keepsPatches_patchOnly).eq
    rw [← hsame s, h, hsame s']
  · rw [← Struct.encode_eachMetadata s, h, Struct.encode_eachMetadata s']

/-- A release whose tag is on its way out. -/
def markedRelease : Struct :=
  .object [("tag", (Struct.string.deprecatedWithMessage "use name").override [("type", .null)]),
    ("notes", (Struct.array .string).withDefault (.array []))]

/-- A release with what another consumer has to say of it, and an override that is none. -/
def labelledRelease : Struct :=
  .annotate overrideId (.bool true) (.object
    [("tag", Struct.string.annotate ⟨"ui", "label"⟩ (.string "Tag")),
      ("notes", (Struct.array .string).withDefault (.array []))])

/-- A release with nothing but the default of its notes. -/
def plainRelease : Struct :=
  .object [("tag", .string), ("notes", (Struct.array .string).withDefault (.array []))]

theorem annotations_do_not_interfere_release :
    (markedRelease.eachMetadata Metadata.defaultOnly = plainRelease.eachMetadata Metadata.defaultOnly ∧
      ∃ node node', (markedRelease.node {}).result = .ok node ∧
        (plainRelease.node {}).result = .ok node' ∧ node.required = node'.required) ∧
    (labelledRelease.eachMetadata Metadata.patchOnly = plainRelease.eachMetadata Metadata.patchOnly ∧
      (labelledRelease.node {}).result = (plainRelease.node {}).result) ∧
    (markedRelease.eachMetadata (fun _ => {}) = labelledRelease.eachMetadata (fun _ => {}) ∧
      markedRelease.encode (.object []) = labelledRelease.encode (.object [])) := by
  have hmarked := (annotations_do_not_interfere markedRelease plainRelease {}).1 rfl
  have hlabelled := (annotations_do_not_interfere labelledRelease plainRelease {}).2.1 rfl
  have hencode := (annotations_do_not_interfere markedRelease labelledRelease {}).2.2 rfl
  refine ⟨⟨rfl, ?_⟩, ⟨rfl, hlabelled⟩, rfl, hencode _⟩
  rcases hmarked with ⟨e, he, -⟩ | hnodes
  · cases he
  · exact hnodes

end ShapeSchema
