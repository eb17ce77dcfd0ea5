import ShapeSchema.Proofs.Schema.Soundness

/-!
# The schemas inside a schema

A schema holds further schemas under some of its keywords. Those in the schema of a node are the
schemas of the nodes inside it, besides a few that say nothing of their own, and a `default` is only
found where a struct has one.
-/

namespace ShapeSchema

/-- The schemas that stand directly under a keyword. -/
def Fragment.inside : String × Json → List Json
  | ("not", f) => [f]
  | ("anyOf", .array fs) => fs
  | ("items", .array fs) => fs
  | ("items", f) => [f]
  | ("properties", .object properties) => properties.map Prod.snd
  | ("additionalProperties", f) => [f]
  | _ => []

/-- The first schema is the second, or stands inside it at any depth. -/
inductive Subschema : Json → Json → Prop
  | refl (f : Json) : Subschema f f
  | step {f g : Json} {schema : Fragment} {entry : String × Json} (mem : entry ∈ schema)
      (inside : g ∈ Fragment.inside entry) (inner : Subschema f g) : Subschema f (.object schema)

/-- Every default of the schema, and of the schemas inside it, is as `P` says of the schema that
carries it. -/
def DefaultsMeet (P : Fragment → Json → Prop) (f : Json) : Prop :=
  ∀ schema, Subschema (.object schema) f → ∀ d, ("default", d) ∈ schema → P schema d

/-- The same of the schemas strictly inside. -/
def InsideMeet (P : Fragment → Json → Prop) (schema : Fragment) : Prop :=
  ∀ entry ∈ schema, ∀ g ∈ Fragment.inside entry, DefaultsMeet P g

section

variable {P Q : Fragment → Json → Prop}

theorem defaultsMeet_iff {schema : Fragment} :
    DefaultsMeet P (.object schema) ↔
      (∀ d, ("default", d) ∈ schema → P schema d) ∧ InsideMeet P schema := by
  constructor
  · intro h
    exact ⟨h schema (.refl _), fun entry mem g hg f hf => h f (.step mem hg hf)⟩
  · rintro ⟨hown, hinside⟩ f hf
    cases hf with
    | refl => exact hown
    | step mem hg inner => exact hinside _ mem _ hg f inner

theorem DefaultsMeet.imp {f : Json} (h : DefaultsMeet P f) (himp : ∀ schema d, P schema d → Q schema d) :
    DefaultsMeet Q f :=
  fun schema hschema d hd => himp schema d (h schema hschema d hd)

theorem defaultsMeet_bool (b : Bool) : DefaultsMeet P (.bool b) := by
  intro schema h
  cases h

/-- The keywords of fragments under which no schemas stand. -/
def flatKeywords : List String :=
  ["type", "const", "minItems", "maxItems", "required"] ++ Reading.silentKeywords

theorem inside_flat {entry : String × Json} (h : entry.1 ∈ flatKeywords) :
    Fragment.inside entry = [] := by
  obtain ⟨keyword, argument⟩ := entry
  simp only [flatKeywords, Reading.silentKeywords, List.cons_append, List.nil_append,
    List.mem_cons, List.not_mem_nil, or_false] at h
  rcases h with rfl | rfl | rfl | rfl | rfl | rfl | rfl | rfl | rfl <;> rfl

theorem inside_silent {entry : String × Json} (h : entry.1 ∈ Reading.silentKeywords) :
    Fragment.inside entry = [] :=
  inside_flat (List.mem_append_right _ h)

theorem insideMeet_nil : InsideMeet P [] := by
  intro entry hentry
  cases hentry

theorem insideMeet_cons {entry : String × Json} {rest : Fragment} :
    InsideMeet P (entry :: rest) ↔
      (∀ g ∈ Fragment.inside entry, DefaultsMeet P g) ∧ InsideMeet P rest :=
  List.forall_mem_cons

theorem insideMeet_flat {f : Fragment} (h : ∀ keyword ∈ Table.keys f, keyword ∈ flatKeywords) :
    InsideMeet P f := by
  intro entry hentry g hg
  rw [inside_flat (h _ (Table.mem_keys_of_mem hentry))] at hg
  cases hg

/-- Merging silent keywords adds no schema inside. -/
theorem insideMeet_merge {base patch : Fragment} (hbase : InsideMeet P base)
    (hpatch : ∀ keyword ∈ Table.keys patch, keyword ∈ Reading.silentKeywords) :
    InsideMeet P (Table.merge base patch) := by
  intro entry hentry g hg
  rcases Table.mem_merge hentry with hentry | hentry
  · exact hbase entry hentry g hg
  · rw [inside_silent (hpatch _ (Table.mem_keys_of_mem hentry))] at hg
    cases hg

/-! ## Shape by shape -/

theorem insideMeet_ofType (name : String) : InsideMeet P (.ofType name) :=
  insideMeet_flat (by simp [Fragment.ofType, flatKeywords])

theorem defaultsMeet_null : DefaultsMeet P (.object Fragment.null) :=
  defaultsMeet_iff.mpr ⟨by simp [Fragment.null, Fragment.ofType], insideMeet_ofType _⟩

theorem defaultsMeet_empty : DefaultsMeet P (.object Fragment.empty) :=
  defaultsMeet_iff.mpr ⟨by simp [Fragment.empty], insideMeet_nil⟩

theorem insideMeet_leaf {l : Leaf} {f : Fragment} (hf : l.fragment? = some f) : InsideMeet P f := by
  rcases Leaf.fragment_form hf with rfl | rfl | ⟨name, rfl⟩ | ⟨name, value, rfl⟩
  · exact insideMeet_cons.mpr ⟨List.forall_mem_singleton.mpr defaultsMeet_empty, insideMeet_nil⟩
  · exact insideMeet_nil
  · exact insideMeet_ofType name
  · exact insideMeet_flat (by simp [flatKeywords])

/-- Schemas in an array stand under its keyword. -/
theorem defaultsMeet_list {fs : List Fragment} (h : ∀ f ∈ fs, DefaultsMeet P (.object f)) :
    ∀ g ∈ fs.map Json.object, DefaultsMeet P g :=
  List.forall_mem_map.mpr h

theorem insideMeet_anyOf {fs : List Fragment} (h : ∀ f ∈ fs, DefaultsMeet P (.object f)) :
    InsideMeet P (.anyOf fs) :=
  insideMeet_cons.mpr ⟨defaultsMeet_list h, insideMeet_nil⟩

theorem insideMeet_wrapper {f : Fragment} (h : DefaultsMeet P (.object f)) (w : Wrapper) :
    InsideMeet P (w.fragment f) := by
  have hf : ∀ g ∈ [Json.object f], DefaultsMeet P g := List.forall_mem_singleton.mpr h
  cases w with
  | option => exact (defaultsMeet_iff.mp h).2
  | nullable => exact insideMeet_anyOf (by simpa using ⟨h, defaultsMeet_null⟩)
  | array => exact insideMeet_cons.mpr ⟨hf, insideMeet_flat (by simp [flatKeywords])⟩
  | dict =>
    refine insideMeet_cons.mpr ⟨?_, insideMeet_cons.mpr ⟨hf, insideMeet_nil⟩⟩
    intro g hg
    cases hg

theorem insideMeet_series {fs : List Fragment} (h : ∀ f ∈ fs, DefaultsMeet P (.object f))
    (k : Series) : InsideMeet P (k.fragment fs) := by
  cases k with
  | tuple =>
    exact insideMeet_cons.mpr ⟨defaultsMeet_list h, insideMeet_flat (by simp [flatKeywords])⟩
  | union => exact insideMeet_anyOf h

theorem insideMeet_object {nodes : List (String × Node)}
    (h : ∀ node ∈ nodes, DefaultsMeet P (.object node.2.schema)) (policy : UnknownKeys) :
    InsideMeet P (objectFragment policy nodes) := by
  have hproperties : ∀ g ∈ (Table.ofList (nodes.map fun node =>
      (node.1, Json.object node.2.schema))).map Prod.snd, DefaultsMeet P g := by
    intro g hg
    obtain ⟨property, hproperty, rfl⟩ := List.mem_map.mp hg
    rcases Table.mem_merge hproperty with hnil | hproperty
    · cases hnil
    · obtain ⟨node, hnode, rfl⟩ := List.mem_map.mp hproperty
      exact h node hnode
  refine List.forall_mem_append.mpr ⟨?_, insideMeet_flat ?_⟩
  · refine insideMeet_cons.mpr ⟨?_, insideMeet_cons.mpr ⟨hproperties, insideMeet_cons.mpr ⟨?_, insideMeet_nil⟩⟩⟩
    · intro g hg
      cases hg
    · exact List.forall_mem_singleton.mpr (defaultsMeet_bool _)
  · split <;> simp [flatKeywords]

end

/-! ## Whole structs -/

namespace Struct

variable {limit depth : Nat}

theorem Unpatched.within {s t : Struct} (hs : s.Unpatched) (ht : Within t s) : t.Unpatched :=
  fun r hr => hs r (hr.trans ht)

theorem mem_patch {s : Struct} (hraw : s.Unpatched) {encoded : Option Json} {d : Json}
    (hd : ("default", d) ∈ s.patch encoded) : encoded = some d := by
  rw [hraw.patch_eq, List.mem_append] at hd
  rcases hd with hd | hd
  · rcases hmark : s.deprecation with _ | _ | message <;>
      simp [hmark, Fragment.ofDeprecation, Fragment.deprecated,
        Fragment.deprecatedWithMessage] at hd
  · cases encoded with
    | none => simp at hd
    | some w => simpa [Fragment.defaultValue, eq_comm] using hd

theorem default_not_mem_leaf {l : Leaf} {f : Fragment} (hf : l.fragment? = some f) (d : Json) :
    ("default", d) ∉ f := by
  rcases Leaf.fragment_form hf with rfl | rfl | ⟨name, rfl⟩ | ⟨name, value, rfl⟩ <;>
    simp [Fragment.never, Fragment.empty, Fragment.ofType]

/-- The schema of a shape has no default: that of an option is the schema of a required struct. -/
theorem default_not_mem {s : Struct} (hraw : s.Unpatched) {base : Node}
    (hbase : (lowerShape limit s.shape depth).result = .ok base) (d : Json) :
    ("default", d) ∉ base.schema := by
  induction s using Struct.induction generalizing depth base with
  | leaf l m =>
    obtain ⟨f, hf, rfl⟩ := lowerShape_leaf_eq_ok.mp hbase
    exact default_not_mem_leaf hf d
  | wrapper w inner m ih =>
    obtain ⟨f, hinner, rfl⟩ := lowerShape_wrapper_eq_ok.mp hbase
    cases w with
    | option =>
      -- The struct inside was accepted as required, so it has no default that could show through.
      have hpart : inner.Unpatched := hraw.part (by simp [Struct.shape, Shape.parts])
      obtain ⟨-, base, hshape, encoded, hencoded, heq⟩ := Struct.lower_eq_ok.mp hinner
      obtain ⟨rfl, hrequired⟩ := Node.mk.inj heq
      obtain rfl : encoded = none := by simpa using (Bool.and_eq_true_iff.mp hrequired).2
      intro hd
      rcases Table.mem_merge hd with hd | hd
      · exact ih hpart hshape hd
      · cases mem_patch hpart hd
    | _ => simp [Wrapper.fragment, Fragment.nullable, Fragment.anyOf, Fragment.array, Fragment.dict]
  | series k items m ih =>
    obtain ⟨fs, -, rfl⟩ := lowerShape_series_eq_ok.mp hbase
    cases k <;> simp [Series.fragment, Fragment.tuple, Fragment.anyOf]
  | object fields policy m ih =>
    obtain ⟨nodes, -, rfl⟩ := lowerShape_object_eq_ok.mp hbase
    simp only [objectFragment, Fragment.record]
    split <;> simp

/-- The default in the schema of a node is that of the struct, in encoded form. -/
theorem of_default_mem {s : Struct} (hraw : s.Unpatched) {node : Node}
    (hnode : (s.lower limit depth).result = .ok node) {d : Json} (hd : ("default", d) ∈ node.schema) :
    ∃ v, s.defaultValue = some v ∧ s.encode v = .ok d := by
  obtain ⟨-, base, hbase, encoded, hencoded, rfl⟩ := Struct.lower_eq_ok.mp hnode
  rcases Table.mem_merge hd with hd | hd
  · exact absurd hd (default_not_mem hraw hbase d)
  · obtain rfl := mem_patch hraw hd
    exact (encodedDefault_eq_ok hencoded).2 d rfl

/-- The schema is that of a node inside the struct, and `d` is its default in encoded form. -/
def Carries (s : Struct) (limit : Nat) (schema : Fragment) (d : Json) : Prop :=
  ∃ t, Within t s ∧ (∃ depth required, (t.lower limit depth).result = .ok ⟨schema, required⟩) ∧
    ∃ v, t.defaultValue = some v ∧ t.encode v = .ok d

theorem Carries.of_part {s part : Struct} (mem : part ∈ s.shape.parts) {schema : Fragment} {d : Json}
    (h : part.Carries limit schema d) : s.Carries limit schema d := by
  obtain ⟨t, ht, hrest⟩ := h
  exact ⟨t, ht.trans (.of_part mem), hrest⟩

theorem defaultsMeet_of_shape {s : Struct} (hraw : s.Unpatched) {node : Node}
    (hnode : (s.lower limit depth).result = .ok node)
    (hinside : ∀ base, (lowerShape limit s.shape (depth + 1)).result = .ok base →
      InsideMeet (s.Carries limit) base.schema) :
    DefaultsMeet (s.Carries limit) (.object node.schema) := by
  refine defaultsMeet_iff.mpr ⟨fun d hd => ?_, ?_⟩
  · exact ⟨s, .refl s, ⟨depth, node.required, hnode⟩, of_default_mem hraw hnode hd⟩
  · obtain ⟨-, base, hbase, encoded, -, rfl⟩ := Struct.lower_eq_ok.mp hnode
    exact insideMeet_merge (hinside base hbase) (hraw.keys_patch encoded)

/-- **All defaults are those of structs.** A default in the schema of a node, or in a schema inside
it, is the default of a struct with just that schema. -/
theorem defaultsMeet_lower {s : Struct} (hraw : s.Unpatched) {node : Node}
    (hnode : (s.lower limit depth).result = .ok node) :
    DefaultsMeet (s.Carries limit) (.object node.schema) := by
  induction s using Struct.induction generalizing depth node with
  | leaf l m =>
    refine defaultsMeet_of_shape hraw hnode fun base hbase => ?_
    obtain ⟨f, hf, rfl⟩ := lowerShape_leaf_eq_ok.mp hbase
    exact insideMeet_leaf hf
  | wrapper w inner m ih =>
    refine defaultsMeet_of_shape hraw hnode fun base hbase => ?_
    obtain ⟨f, hinner, rfl⟩ := lowerShape_wrapper_eq_ok.mp hbase
    have hpart : inner ∈ (Struct.mk (.wrapper w inner) m).shape.parts := by
      simp [Struct.shape, Shape.parts]
    have hmeet : DefaultsMeet (inner.Carries limit) (.object f) := ih (hraw.part hpart) hinner
    exact insideMeet_wrapper (hmeet.imp fun _ _ h => h.of_part hpart) w
  | series k items m ih =>
    refine defaultsMeet_of_shape hraw hnode fun base hbase => ?_
    obtain ⟨fs, hfs, rfl⟩ := lowerShape_series_eq_ok.mp hbase
    refine insideMeet_series (fun f hf => ?_) k
    obtain ⟨s, hs, hlower⟩ := exists_left_of_mem hfs hf
    have hmeet : DefaultsMeet (s.Carries limit) (.object f) := ih s hs (hraw.part hs) hlower
    exact hmeet.imp fun _ _ h => h.of_part hs
  | object fields policy m ih =>
    refine defaultsMeet_of_shape hraw hnode fun base hbase => ?_
    obtain ⟨nodes, hnodes, rfl⟩ := lowerShape_object_eq_ok.mp hbase
    refine insideMeet_object (fun out hout => ?_) policy
    obtain ⟨field, hfield, -, hlower⟩ := exists_left_of_mem hnodes hout
    have hpart : field.2 ∈ (Struct.mk (.object fields policy) m).shape.parts :=
      List.mem_map_of_mem hfield
    have hmeet : DefaultsMeet (field.2.Carries limit) (.object out.2.schema) :=
      ih field hfield (hraw.part hpart) hlower
    exact hmeet.imp fun _ _ h => h.of_part hpart

/-- A default that a struct carries is valid under the schema beside it, but for the null of an
option. -/
theorem Carries.valid {s : Struct} (hs : s.WellFormed) (hraw : s.Unpatched) {schema : Fragment}
    {d : Json} (h : s.Carries limit schema d) :
    Reading.doubles.Valid d schema ∨ d = .null ∧ ∃ t, Within t s ∧ t.isOption = true ∧
      ∃ depth required, (t.lower limit depth).result = .ok ⟨schema, required⟩ := by
  obtain ⟨t, ht, ⟨depth, required, hlower⟩, v, -, hencode⟩ := h
  rcases emits_lower (hs.within ht) (hraw.within ht) hlower v d hencode with ⟨hoption, hnull⟩ | hvalid
  · exact .inr ⟨hnull, t, ht, hoption, depth, required, hlower⟩
  · exact .inl hvalid

/-- The defaults of a document are those of the schema of its root, which has none itself. -/
theorem defaultsMeet_document {s : Struct} (hraw : s.Unpatched) {f : Fragment}
    (hlower : (s.lower limit 0).result = .ok ⟨f, true⟩) :
    DefaultsMeet (s.Carries limit) (.object (Fragment.document f)) := by
  have hmem : ∀ entry ∈ Fragment.document f, entry.1 = "$schema" ∨ entry ∈ f := by
    intro entry hentry
    rcases Table.mem_insert hentry with rfl | hentry
    · exact .inl rfl
    · rcases Table.mem_merge hentry with hentry | hentry
      · exact .inl (by rw [List.mem_singleton.mp hentry])
      · exact .inr hentry
  have hmeet : DefaultsMeet (s.Carries limit) (.object f) := defaultsMeet_lower hraw hlower
  refine defaultsMeet_iff.mpr ⟨fun d hd => ?_, fun entry hentry g hg => ?_⟩
  · rcases hmem _ hd with hdialect | hd
    · exact absurd hdialect (by simp)
    · obtain ⟨v, hv, -⟩ := of_default_mem hraw hlower hd
      have hoptional : s.isOptional = false := not_isOptional hlower
      simp [isOptional, hv] at hoptional
  · rcases hmem _ hentry with hdialect | hentry
    · rw [inside_silent (by simp [hdialect, Reading.silentKeywords])] at hg
      cases hg
    · exact (defaultsMeet_iff.mp hmeet).2 entry hentry g hg

end Struct

/-- What a default must be: valid under the schema that carries it, unless that is the schema of an
option inside the struct and the default is null. -/
def DefaultFits (s : Struct) (limit : Nat) (schema : Fragment) (d : Json) : Prop :=
  Reading.doubles.Valid d schema ∨ d = .null ∧ ∃ t, Struct.Within t s ∧ t.isOption = true ∧
    ∃ depth required, (t.lower limit depth).result = .ok ⟨schema, required⟩

/-- **Soundness of schemas.** What a struct emits is valid under the schema of its node, unless it is
an option that emits null, and under its document, if there is one. Every default in either is valid
under the schema that carries it, unless it is the null of an option. -/
theorem schema_sound (s : Struct) (hs : s.WellFormed) (hraw : s.Unpatched) (config : Config) :
    (∀ node, (s.node config).result = .ok node →
      (∀ v w, s.encode v = .ok w →
        (s.isOption = true ∧ w = .null) ∨ Reading.doubles.Valid w node.schema) ∧
      DefaultsMeet (DefaultFits s config.maxDepth) (.object node.schema)) ∧
    ∀ doc, s.documentWith config = .ok doc →
      (∀ v w, s.encode v = .ok w → Reading.doubles.admits doc w = true) ∧
      DefaultsMeet (DefaultFits s config.maxDepth) doc := by
  constructor
  · intro node hnode
    refine ⟨Struct.emits_lower hs hraw hnode, ?_⟩
    exact (Struct.defaultsMeet_lower hraw hnode).imp fun _ _ h => h.valid hs hraw
  · intro doc hdoc
    obtain ⟨f, hnode, rfl⟩ := Struct.documentWith_eq_ok.mp hdoc
    have hemits : s.Emits f := Struct.emits_lower hs hraw hnode
    refine ⟨fun v w hw => ?_, ?_⟩
    · exact (Reading.admits_document (Struct.distinct_lower hnode)).mpr
        (hemits.valid (Struct.not_isOptional hnode) hw)
    · exact (Struct.defaultsMeet_document hraw hnode).imp fun _ _ h => h.valid hs hraw

/-- An endpoint with a port, 80 unless said otherwise, and perhaps a host. -/
def endpoint : Struct :=
  .object [("port", Struct.int.withDefault (.int 80)),
    ("host", (Struct.option .string).withDefault .null)]

theorem schema_sound_endpoint : endpoint.WellFormed ∧ endpoint.Unpatched ∧
    endpoint.encode (.object [("port", .int 81), ("extra", .null)]) =
      .ok (.object [("port", .int 81)]) ∧
    ∃ doc, endpoint.documentWith {} = .ok doc ∧
      Reading.doubles.admits doc (.object [("port", .int 81)]) = true ∧
      DefaultsMeet (DefaultFits endpoint 128) doc := by
  have hs : endpoint.WellFormed := by
    simp [endpoint, Struct.object, Table.ofList, Table.insert, Struct.WellFormed,
      Struct.WellFormedFields, Struct.withDefault, Struct.mapMetadata, Struct.int, Struct.string,
      Struct.option, Struct.wrapper, Struct.leaf, Leaf.InRange, Metadata.WellFormed, Table.Distinct,
      Json.WellFormed, Json.int, Number.InRange, IsInt64]
  have hraw : endpoint.Unpatched := by
    simp [endpoint, Struct.object, Table.ofList, Table.insert, Struct.unpatched_mk, Shape.parts,
      Table.find?, Struct.withDefault, Struct.mapMetadata, Struct.int, Struct.string, Struct.option,
      Struct.wrapper, Struct.leaf]
  have hw : endpoint.encode (.object [("port", .int 81), ("extra", .null)]) =
      .ok (.object [("port", .int 81)]) := by
    rfl
  obtain ⟨doc, hdoc⟩ : ∃ doc, endpoint.documentWith {} = .ok doc := ⟨_, rfl⟩
  obtain ⟨hemits, hdefaults⟩ := (schema_sound endpoint hs hraw {}).2 doc hdoc
  exact ⟨hs, hraw, hw, doc, hdoc, hemits _ _ hw, hdefaults⟩

end ShapeSchema
