import ShapeSchema.Proofs.Schema.Annotations
import ShapeSchema.Proofs.Schema.Dialect
import ShapeSchema.Proofs.Schema.EqualSchemas
import ShapeSchema.Proofs.Schema.Locality

/-!
# The schemas of objects

What the schema of an object says of its fields, wherever in a struct the object stands: their names in
the order of their declaration, which of them are required, and whether there may be others. The
annotations of a field have no part in what is required.
-/

namespace ShapeSchema

/-- The names of the fields that may not be absent, in the order of their declaration. -/
def Struct.requiredFields (fields : List (String × Struct)) : List String :=
  Table.keys (fields.filter fun field => !field.2.isOptional)

/-- The schema tells the fields of an object and its policy. -/
structure Fragment.Describes (schema : Fragment) (fields : List (String × Struct))
    (policy : UnknownKeys) : Prop where
  /-- All fields are there, each once and in their order. -/
  properties : ∃ properties, Table.find? "properties" schema = some (.object properties) ∧
    Table.keys properties = Table.keys fields ∧ Table.Distinct properties
  /-- If all fields may be absent, there is no list of required ones. -/
  required_none : Table.find? "required" schema = none ↔ ∀ field ∈ fields, field.2.isOptional = true
  required_some : ∀ v, Table.find? "required" schema = some v →
    v = .array ((Struct.requiredFields fields).map .string) ∧
      Struct.requiredFields fields ≠ [] ∧ (Struct.requiredFields fields).Nodup
  additional : ∃ b, Table.find? "additionalProperties" schema = some (.bool b) ∧
    (b = true ↔ policy = .passthrough)

namespace Struct

variable {limit depth : Nat} {fields : List (String × Struct)} {policy : UnknownKeys}

/-! ## Objects on their own -/

theorem requiredFields_eq_nil :
    requiredFields fields = [] ↔ ∀ field ∈ fields, field.2.isOptional = true := by
  simp [requiredFields, Table.keys, List.filter_eq_nil_iff]

/-- The nodes that are required are those of the fields that may not be absent. -/
theorem requiredNames_eq {nodes : List (String × Node)}
    (h : List.Forall₂ (fun field out => out.1 = field.1 ∧
      (Struct.lower limit field.2 depth).result = .ok out.2) fields nodes) :
    requiredNames nodes = requiredFields fields := by
  induction h with
  | nil => rfl
  | @cons field out _ _ hfield _ ih =>
    obtain ⟨hname, hlower⟩ := hfield
    have hrequired : out.2.required = !field.2.isOptional := lower_required hlower
    rw [requiredNames, requiredFields] at ih ⊢
    cases hoptional : field.2.isOptional <;> simp [hrequired, hoptional, hname, ih]

theorem find?_required {nodes : List (String × Node)}
    (h : List.Forall₂ (fun field out => out.1 = field.1 ∧
      (Struct.lower limit field.2 depth).result = .ok out.2) fields nodes) :
    Table.find? "required" (objectFragment policy nodes) =
      if (requiredFields fields).isEmpty then none
      else some (.array ((requiredFields fields).map .string)) := by
  have hrecord : ∀ (properties : Fragment) (additional : Bool) (names : List String),
      Table.find? "required" (Fragment.record properties additional names) =
        if names.isEmpty then none else some (.array (names.map .string)) := by
    intro properties additional names
    rw [Fragment.record]
    split <;> rfl
  rw [← requiredNames_eq h]
  exact hrecord _ _ _

/-- The schema of the shape of an object tells its fields. -/
theorem describes_objectFragment {nodes : List (String × Node)} (hdistinct : Table.Distinct fields)
    (h : List.Forall₂ (fun field out => out.1 = field.1 ∧
      (Struct.lower limit field.2 depth).result = .ok out.2) fields nodes) :
    (objectFragment policy nodes).Describes fields policy := by
  have hkeys : Table.keys nodes = Table.keys fields := Table.keys_eq_of_forall₂ h fun _ _ h => h.1
  have hnodes : Table.Distinct nodes := by rwa [Table.Distinct, hkeys]
  refine ⟨⟨Dialect.properties nodes, ?_, ?_, ?_⟩, ?_, ?_, ⟨policy == .passthrough, rfl, ?_⟩⟩
  · rw [Dialect.objectFragment_eq hnodes]
    rfl
  · rw [Dialect.keys_properties, hkeys]
  · rwa [Table.Distinct, Dialect.keys_properties]
  · rw [find?_required h, ← requiredFields_eq_nil]
    cases requiredFields fields <;> simp
  · intro v hv
    rw [find?_required h] at hv
    split at hv
    · cases hv
    · rename_i hne
      refine ⟨(Option.some.inj hv).symm, by simpa using hne, hdistinct.filter _⟩
  · cases policy <;> decide

end Struct

/-! ## Objects inside a struct -/

namespace Gap

/-- A pointer through a gap begins with a keyword that no metadata writes to, if with anything. -/
theorem pointer_cases (gap : Gap) : gap.pointer = [] ∨ ∃ keyword steps,
    gap.pointer = .key keyword :: steps ∧ keyword ∉ Reading.silentKeywords := by
  by_cases hoption : gap = .wrapper .option
  · exact .inl (by rw [hoption]; rfl)
  · exact .inr (pointer_head hoption)

end Gap

namespace Frame

/-- So does one through any frames. -/
theorem pointer_cases (frames : List Frame) : pointer frames = [] ∨ ∃ keyword steps,
    pointer frames = .key keyword :: steps ∧ keyword ∉ Reading.silentKeywords := by
  induction frames with
  | nil => exact .inl rfl
  | cons frame rest ih =>
    rw [pointer_cons]
    rcases frame.gap.pointer_cases with hgap | ⟨keyword, steps, hgap, hkeyword⟩
    · rwa [hgap, List.nil_append]
    · exact .inr ⟨keyword, steps ++ pointer rest, by rw [hgap]; rfl, hkeyword⟩

end Frame

namespace Struct

variable {limit depth : Nat}

/-- Through any frames, none of which adds to its schema by an override: what stands at the pointer has
the keywords of the shape in the gap, whatever the metadata of an option around it has added. -/
theorem find?_plug {frames : List Frame} {s : Struct} {node : Node}
    (hs : (Frame.plug frames s).WellFormed)
    (hraw : ∀ frame ∈ frames, overridePatch (Table.find? overrideId frame.metadata.annotations) = [])
    (hown : overridePatch (s.annotated? overrideId) = [])
    (h : ((Frame.plug frames s).lower limit depth).result = .ok node) :
    ∃ schema base, (Json.object node.schema).at? (Frame.pointer frames) = some (.object schema) ∧
      (lowerShape limit s.shape (depth + frames.length + 1)).result = .ok base ∧
      ∀ keyword ∉ Reading.silentKeywords,
        Table.find? keyword schema = Table.find? keyword base.schema := by
  induction frames generalizing depth node with
  | nil =>
    obtain ⟨-, base, hbase, encoded, -, rfl⟩ := lower_eq_ok.mp h
    refine ⟨_, base, rfl, hbase, fun keyword hkeyword => ?_⟩
    exact Table.find?_merge_of_not_mem fun hmem => hkeyword (keys_patch hown encoded keyword hmem)
  | cons frame rest ih =>
    obtain ⟨hframe, hrest⟩ := List.forall_mem_cons.mp hraw
    obtain ⟨-, outerBase, houterBase, encoded, -, rfl⟩ := lower_eq_ok.mp h
    obtain ⟨outer, houter, hat⟩ := at?_fill hs houterBase
    obtain ⟨schema, base, hschema, hbase, hkeywords⟩ := ih (hs.part (frame.mem_parts _)) hrest houter
    have hpath : (Json.object outerBase.schema).at? (Frame.pointer (frame :: rest)) =
        some (.object schema) := by
      rw [Frame.pointer_cons, Json.at?_append, hat]
      exact hschema
    have hdepth : depth + (frame :: rest).length = depth + 1 + rest.length := by
      rw [List.length_cons]
      omega
    have hplain : overridePatch ((frame.fill (Frame.plug rest s)).annotated? overrideId) = [] := hframe
    have hkeep : ∀ keyword ∉ Reading.silentKeywords,
        Table.find? keyword (Table.merge outerBase.schema
          ((frame.fill (Frame.plug rest s)).patch encoded)) =
        Table.find? keyword outerBase.schema := fun keyword hkeyword =>
      Table.find?_merge_of_not_mem fun hmem => hkeyword (keys_patch hplain encoded keyword hmem)
    rw [hdepth]
    rcases Frame.pointer_cases (frame :: rest) with hpointer | ⟨keyword, steps, hpointer, hkeyword⟩
    · -- All frames are options: what they add is beside the keywords of the shape inside.
      rw [hpointer] at hpath
      obtain rfl := Json.object.inj (Option.some.inj hpath)
      refine ⟨_, base, by rw [hpointer]; rfl, hbase, fun keyword hkeyword => ?_⟩
      exact (hkeep keyword hkeyword).trans (hkeywords keyword hkeyword)
    · refine ⟨schema, base, ?_, hbase, hkeywords⟩
      rw [hpointer, Json.at?_key] at hpath ⊢
      rwa [Frame.plug_cons, hkeep keyword hkeyword]

/-- The schema of an object inside a struct tells its fields. -/
theorem describes_plug {frames : List Frame} {fields : List (String × Struct)} {policy : UnknownKeys}
    {m : Metadata} {node : Node} (hs : (Frame.plug frames (.mk (.object fields policy) m)).WellFormed)
    (hraw : ∀ frame ∈ frames, overridePatch (Table.find? overrideId frame.metadata.annotations) = [])
    (hown : overridePatch (Table.find? overrideId m.annotations) = [])
    (h : ((Frame.plug frames (.mk (.object fields policy) m)).lower limit depth).result = .ok node) :
    ∃ schema, (Json.object node.schema).at? (Frame.pointer frames) = some (.object schema) ∧
      Fragment.Describes schema fields policy := by
  obtain ⟨schema, base, hat, hbase, hkeywords⟩ := find?_plug hs hraw hown h
  obtain ⟨nodes, hnodes, rfl⟩ := lowerShape_object_eq_ok.mp hbase
  have hobject : (Struct.mk (.object fields policy) m).WellFormed :=
    hs.within (Frame.within_iff_plug.mpr ⟨frames, rfl⟩)
  have hdescribes : (objectFragment policy nodes).Describes fields policy :=
    describes_objectFragment hobject.1 hnodes
  refine ⟨schema, hat, ?_, ?_, ?_, ?_⟩
  · rw [hkeywords _ (by decide)]
    exact hdescribes.properties
  · rw [hkeywords _ (by decide)]
    exact hdescribes.required_none
  · rw [hkeywords _ (by decide)]
    exact hdescribes.required_some
  · rw [hkeywords _ (by decide)]
    exact hdescribes.additional

/-! ## Annotations of fields -/

/-- The struct with other annotations in the place of its own. -/
def withAnnotations (annotations : Table MetadataId Json) (s : Struct) : Struct :=
  s.mapMetadata fun m => { m with annotations := annotations }

theorem eachMetadata_withAnnotations (annotations : Table MetadataId Json) (s : Struct) :
    (s.withAnnotations annotations).eachMetadata Metadata.defaultOnly =
      s.eachMetadata Metadata.defaultOnly := by
  obtain ⟨shape, m⟩ := s
  rfl

theorem isOptional_withAnnotations (annotations : Table MetadataId Json) (s : Struct) :
    (s.withAnnotations annotations).isOptional = s.isOptional := by
  obtain ⟨shape, m⟩ := s
  cases shape with
  | wrapper w inner => cases w <;> rfl
  | _ => rfl

/-- A default is encoded without regard to any other metadata. -/
theorem encodedDefault_congr {s s' : Struct}
    (h : s.eachMetadata Metadata.defaultOnly = s'.eachMetadata Metadata.defaultOnly) :
    s.encodedDefault = s'.encodedDefault := by
  have hkeeps : KeepsDefaults Metadata.defaultOnly := fun _ => rfl
  rw [← encodedDefault_eachMetadata hkeeps s, h, encodedDefault_eachMetadata hkeeps]

theorem exists_lower_of_defaults {s s' : Struct}
    (h : s.eachMetadata Metadata.defaultOnly = s'.eachMetadata Metadata.defaultOnly) {node : Node}
    (hnode : (s.lower limit depth).result = .ok node) :
    ∃ node', (s'.lower limit depth).result = .ok node' := by
  have hkeeps : KeepsDefaults Metadata.defaultOnly := fun _ => rfl
  have hs := @parallel_lower _ limit hkeeps s depth
  rw [h] at hs
  rcases hs.common (parallel_lower hkeeps s' depth) with ⟨e, he, -⟩ | ⟨-, -, node', -, hnode', -⟩
  · cases hnode.symm.trans he
  · exact ⟨node', hnode'⟩

/-- Structs that differ in some metadata still do so inside a frame, and in nothing else. -/
theorem eachMetadata_fill {f : Metadata → Metadata} {s s' : Struct}
    (h : s.eachMetadata f = s'.eachMetadata f) (frame : Frame) :
    (frame.fill s).eachMetadata f = (frame.fill s').eachMetadata f := by
  obtain ⟨gap, m⟩ := frame
  cases gap with
  | wrapper w => simp only [Frame.fill, Gap.fill, eachMetadata_wrapper, h]
  | series k before after =>
    simp only [Frame.fill, Gap.fill, eachMetadata_series, List.map_append, List.map_cons, h]
  | object before name after policy =>
    simp only [Frame.fill, Gap.fill, eachMetadata_object, List.map_append, List.map_cons, h]

theorem eachMetadata_plug {f : Metadata → Metadata} {s s' : Struct}
    (h : s.eachMetadata f = s'.eachMetadata f) (frames : List Frame) :
    (Frame.plug frames s).eachMetadata f = (Frame.plug frames s').eachMetadata f := by
  induction frames with
  | nil => exact h
  | cons frame rest ih => exact eachMetadata_fill ih frame

/-- A frame stays well-formed when another well-formed struct is put into it. -/
theorem WellFormed.fill {frame : Frame} {s s' : Struct} (hs : (frame.fill s).WellFormed)
    (hs' : s'.WellFormed) : (frame.fill s').WellFormed := by
  obtain ⟨gap, m⟩ := frame
  cases gap with
  | wrapper w => exact ⟨hs', hs.2⟩
  | series k before after =>
    refine ⟨wellFormedItems_iff.mpr ?_, hs.2⟩
    have hitems := wellFormedItems_iff.mp hs.1
    simp only [List.forall_mem_append, List.forall_mem_cons] at hitems ⊢
    exact ⟨hitems.1, hs', hitems.2.2⟩
  | object before name after policy =>
    obtain ⟨hdistinct, hfields, hm⟩ := hs
    refine ⟨?_, wellFormedFields_iff.mpr ?_, hm⟩
    · simpa [Table.Distinct, Table.keys] using hdistinct
    · have hfields := wellFormedFields_iff.mp hfields
      simp only [List.forall_mem_append, List.forall_mem_cons] at hfields ⊢
      exact ⟨hfields.1, hs', hfields.2.2⟩

theorem WellFormed.plug {frames : List Frame} {s s' : Struct} (hs : (Frame.plug frames s).WellFormed)
    (hs' : s'.WellFormed) : (Frame.plug frames s').WellFormed := by
  induction frames with
  | nil => exact hs'
  | cons frame rest ih => exact hs.fill (ih (hs.part (frame.mem_parts _)))

/-- Merging a patch into two schemas leaves them alike where they were. -/
theorem at?_merge_congr {base base' patch : Fragment} {keyword : String} {steps : List Json.Step}
    (h : (Json.object base).at? (.key keyword :: steps) =
      (Json.object base').at? (.key keyword :: steps)) :
    (Json.object (Table.merge base patch)).at? (.key keyword :: steps) =
      (Json.object (Table.merge base' patch)).at? (.key keyword :: steps) := by
  rw [Json.at?_key, Json.at?_key]
  by_cases hkeyword : keyword ∈ Table.keys patch
  · rw [Table.find?_merge_of_mem hkeyword]
  · rw [Table.find?_merge_of_not_mem hkeyword, Table.find?_merge_of_not_mem hkeyword]
    exact h

/-- The schemas of two structs have the same under a keyword, at whatever depth they are lowered. -/
def SameUnder (limit : Nat) (keyword : String) (s s' : Struct) : Prop :=
  ∀ depth node node', (s.lower limit depth).result = .ok node →
    (s'.lower limit depth).result = .ok node' →
    (Json.object node.schema).at? [.key keyword] = (Json.object node'.schema).at? [.key keyword]

/-- So do the schemas around them, at the pointer of the two. Overrides do not matter here: what one
puts in the way of the pointer is the same for both. -/
theorem SameUnder.at?_plug {keyword : String} {s s' : Struct} (hsame : SameUnder limit keyword s s')
    (hdefaults : s.eachMetadata Metadata.defaultOnly = s'.eachMetadata Metadata.defaultOnly)
    {frames : List Frame} (hs : (Frame.plug frames s).WellFormed)
    (hs' : (Frame.plug frames s').WellFormed) {node node' : Node}
    (h : ((Frame.plug frames s).lower limit depth).result = .ok node)
    (h' : ((Frame.plug frames s').lower limit depth).result = .ok node') :
    (Json.object node.schema).at? (Frame.pointer frames ++ [.key keyword]) =
      (Json.object node'.schema).at? (Frame.pointer frames ++ [.key keyword]) := by
  induction frames generalizing depth node node' with
  | nil => exact hsame _ _ _ h h'
  | cons frame rest ih =>
    obtain ⟨-, base, hbase, encoded, hencoded, rfl⟩ := lower_eq_ok.mp h
    obtain ⟨-, base', hbase', encoded', hencoded', rfl⟩ := lower_eq_ok.mp h'
    obtain ⟨inner, hinner, hat⟩ := at?_fill hs hbase
    obtain ⟨inner', hinner', hat'⟩ := at?_fill hs' hbase'
    have hbases : (Json.object base.schema).at? (Frame.pointer (frame :: rest) ++ [.key keyword]) =
        (Json.object base'.schema).at? (Frame.pointer (frame :: rest) ++ [.key keyword]) := by
      rw [Frame.pointer_cons, List.append_assoc, Json.at?_append, Json.at?_append, hat, hat']
      exact ih (hs.part (frame.mem_parts _)) (hs'.part (frame.mem_parts _)) hinner hinner'
    -- The frame adds the same to both: its own marks, and its default in the same encoding.
    have hdefault := encodedDefault_congr (eachMetadata_plug hdefaults (frame :: rest))
    obtain rfl : encoded = encoded' := Except.ok.inj (hencoded.symm.trans (hdefault.trans hencoded'))
    obtain ⟨first, steps, hpointer⟩ : ∃ first steps,
        Frame.pointer (frame :: rest) ++ [.key keyword] = .key first :: steps := by
      rcases Frame.pointer_cases (frame :: rest) with hpointer | ⟨first, steps, hpointer, -⟩
      · exact ⟨keyword, [], by rw [hpointer]; rfl⟩
      · exact ⟨first, steps ++ [.key keyword], by rw [hpointer]; rfl⟩
    rw [hpointer] at hbases ⊢
    exact at?_merge_congr hbases

/-- Whatever the annotations of a field, the schema of its object requires the same. -/
theorem sameUnder_required {before after : List (String × Struct)} {name : String} {t : Struct}
    {policy : UnknownKeys} {m : Metadata} (annotations : Table MetadataId Json) :
    SameUnder limit "required" (.mk (.object (before ++ (name, t) :: after) policy) m)
      (.mk (.object (before ++ (name, t.withAnnotations annotations) :: after) policy) m) := by
  intro depth node node' h h'
  obtain ⟨-, base, hbase, encoded, hencoded, rfl⟩ := lower_eq_ok.mp h
  obtain ⟨-, base', hbase', encoded', hencoded', rfl⟩ := lower_eq_ok.mp h'
  obtain ⟨nodes, hnodes, rfl⟩ := lowerShape_object_eq_ok.mp hbase
  obtain ⟨nodes', hnodes', rfl⟩ := lowerShape_object_eq_ok.mp hbase'
  have hdefault := encodedDefault_congr (eachMetadata_fill
    (eachMetadata_withAnnotations annotations t) ⟨.object before name after policy, m⟩)
  obtain rfl : encoded = encoded' :=
    Except.ok.inj (hencoded.symm.trans (hdefault.symm.trans hencoded'))
  have hrequired : requiredFields (before ++ (name, t.withAnnotations annotations) :: after) =
      requiredFields (before ++ (name, t) :: after) := by
    simp only [requiredFields, Table.keys, List.filter_append, List.filter_cons,
      isOptional_withAnnotations, List.map_append]
    split <;> rfl
  refine at?_merge_congr ?_
  rw [Json.at?_key, Json.at?_key, find?_required hnodes, find?_required hnodes', hrequired]

/-- A struct inside which a field gets other annotations has a node as before, and the object of the
field requires as before. -/
theorem required_withAnnotations {frames : List Frame} {before after : List (String × Struct)}
    {name : String} {t : Struct} {policy : UnknownKeys} {m : Metadata} {node : Node}
    (annotations : Table MetadataId Json)
    (hs : (Frame.plug frames (.mk (.object (before ++ (name, t) :: after) policy) m)).WellFormed)
    (ht : (t.withAnnotations annotations).WellFormed)
    (h : ((Frame.plug frames (.mk (.object (before ++ (name, t) :: after) policy) m)).lower limit
      depth).result = .ok node) :
    ∃ node', ((Frame.plug frames (.mk (.object (before ++ (name, t.withAnnotations annotations) ::
        after) policy) m)).lower limit depth).result = .ok node' ∧
      (Json.object node'.schema).at? (Frame.pointer frames ++ [.key "required"]) =
        (Json.object node.schema).at? (Frame.pointer frames ++ [.key "required"]) := by
  have hfield := eachMetadata_fill (eachMetadata_withAnnotations annotations t)
    ⟨.object before name after policy, m⟩
  obtain ⟨node', h'⟩ := exists_lower_of_defaults (eachMetadata_plug hfield frames).symm h
  have hobject : (Frame.fill ⟨.object before name after policy, m⟩ t).WellFormed :=
    hs.within (Frame.within_iff_plug.mpr ⟨frames, rfl⟩)
  have hs' := hs.plug (hobject.fill ht)
  exact ⟨node', h', ((sameUnder_required annotations).at?_plug hfield.symm hs hs' h h').symm⟩

end Struct

/-- **Schemas of objects.** Through any containers without overrides, the pointer of an object leads to a
schema that has all its fields in order, that requires just those that are no options and have no
default, and has no list of them if there are none, and that admits other keys just if the object keeps
them. And whatever annotations a field is given, so that its schema is overridden in any way, or no
longer, the object requires the same. -/
theorem object_schema (frames : List Frame) (fields : List (String × Struct)) (policy : UnknownKeys)
    (m : Metadata) (config : Config) (node : Node)
    (hs : (Frame.plug frames (.mk (.object fields policy) m)).WellFormed)
    (hnode : ((Frame.plug frames (.mk (.object fields policy) m)).node config).result = .ok node) :
    ((∀ frame ∈ frames, overridePatch (Table.find? overrideId frame.metadata.annotations) = []) →
      overridePatch (Table.find? overrideId m.annotations) = [] →
      ∃ schema, (Json.object node.schema).at? (Frame.pointer frames) = some (.object schema) ∧
        Fragment.Describes schema fields policy) ∧
    ∀ before name t after annotations, fields = before ++ (name, t) :: after →
      (t.withAnnotations annotations).WellFormed →
      ∃ node', ((Frame.plug frames (.mk (.object (before ++ (name, t.withAnnotations annotations) ::
          after) policy) m)).node config).result = .ok node' ∧
        (Json.object node'.schema).at? (Frame.pointer frames ++ [.key "required"]) =
          (Json.object node.schema).at? (Frame.pointer frames ++ [.key "required"]) := by
  refine ⟨fun hraw hown => Struct.describes_plug hs hraw hown hnode, ?_⟩
  rintro before name t after annotations rfl ht
  exact Struct.required_withAnnotations annotations hs ht hnode

/-- The containers around the address of a customer: fields, and an option that is null by default. -/
def customerFrames : List Frame :=
  [⟨.object [("name", .string)] "address" [] .strict, { deprecation := some .flagged }⟩,
    ⟨.wrapper .option, { default := some .null }⟩]

/-- The fields of an address, of which only the street is required; its override is of no account. -/
def addressFields : List (String × Struct) :=
  [("street", Struct.string.override [("required", .array [])]),
    ("zip", Struct.int.withDefault (.int 0)), ("note", .option .string)]

theorem object_schema_address :
    let rewritten : Struct := Struct.string.withAnnotations [(overrideId, .object [("type", .null)])]
    let path : List Json.Step := [.key "properties", .key "address"]
    ∃ node, ((Frame.plug customerFrames (.mk (.object addressFields .passthrough) {})).node {}).result =
        .ok node ∧
      (∃ schema, (Json.object node.schema).at? path = some (.object schema) ∧
        Fragment.Describes schema addressFields .passthrough ∧
        Struct.requiredFields addressFields = ["street"]) ∧
      ∃ node', ((Frame.plug customerFrames (.mk (.object (("street", rewritten) :: addressFields.tail)
          .passthrough) {})).node {}).result = .ok node' ∧
        (Json.object node'.schema).at? (path ++ [.key "required"]) =
          (Json.object node.schema).at? (path ++ [.key "required"]) := by
  intro rewritten path
  have hs : (Frame.plug customerFrames (.mk (.object addressFields .passthrough) {})).WellFormed := by
    simp [customerFrames, addressFields, Frame.fill, Gap.fill, Struct.override, Struct.annotate,
      Struct.annotated?, Struct.withDefault, Struct.mapMetadata, Struct.WellFormed,
      Struct.WellFormedFields, Struct.string, Struct.int, Struct.option, Struct.wrapper, Struct.leaf,
      Struct.metadata, Leaf.InRange, Metadata.WellFormed, Table.Distinct, Table.insert, Table.find?,
      Json.WellFormed, Json.WellFormedItems, Json.WellFormedEntries, Json.int, Number.InRange, IsInt64]
  have hraw : ∀ frame ∈ customerFrames,
      overridePatch (Table.find? overrideId frame.metadata.annotations) = [] := by
    simp [customerFrames, Table.find?, overridePatch]
  have hnode :
      ((Frame.plug customerFrames (.mk (.object addressFields .passthrough) {})).node {}).result = .ok _ :=
    rfl
  have hrewritten : rewritten.WellFormed := by
    simp [rewritten, Struct.withAnnotations, Struct.mapMetadata, Struct.string, Struct.leaf,
      Struct.WellFormed, Leaf.InRange, Metadata.WellFormed, Table.Distinct, Json.WellFormed,
      Json.WellFormedEntries]
  obtain ⟨hdescribes, hrequired⟩ :=
    object_schema customerFrames addressFields .passthrough {} {} _ hs hnode
  obtain ⟨schema, hat, hschema⟩ := hdescribes hraw rfl
  exact ⟨_, hnode, ⟨schema, hat, hschema, rfl⟩,
    hrequired [] "street" (Struct.string.override [("required", .array [])]) addressFields.tail
      [(overrideId, .object [("type", .null)])] rfl hrewritten⟩

end ShapeSchema
