import ShapeSchema.Proofs.Schema.Attachments
import ShapeSchema.Proofs.Schema.Subschemas

/-!
# Conforming to the dialect

The dialect has a schema for schemas, which says of each keyword what its argument may be. Documents
without overrides meet it in all but one point: a list of schemas must not be empty, and the schema
of a tuple or a union without items has an empty one.
-/

namespace ShapeSchema

namespace Dialect

/-! ## What the dialect asks -/

/-- The names of the types. -/
def typeNames : List String :=
  ["array", "boolean", "integer", "null", "number", "object", "string"]

/-- What may stand where a schema is due. -/
def IsSchema (v : Json) : Prop := (∃ schema, v = .object schema) ∨ ∃ b, v = .bool b

/-- A list in which all that stands is a schema. -/
def AreSchemas (v : Json) : Prop := ∃ fs, v = .array fs ∧ ∀ f ∈ fs, IsSchema f

/-- What the argument of a keyword may be, except that a list of schemas must not be empty. No other
keywords are in use. -/
def Permits : String × Json → Prop
  | ("$schema", v) => v = .string Fragment.dialect
  | ("type", v) => ∃ name ∈ typeNames, v = .string name
  | ("not", v) => IsSchema v
  | ("anyOf", v) => AreSchemas v
  | ("items", v) => IsSchema v ∨ AreSchemas v
  | ("properties", v) =>
    ∃ properties, v = .object properties ∧ Table.Distinct properties ∧
      ∀ property ∈ properties, IsSchema property.2
  | ("additionalProperties", v) => IsSchema v
  | ("required", v) => ∃ names : List String, v = .array (names.map .string) ∧ names.Nodup
  | ("minItems", v) => ∃ n, v = .nat n
  | ("maxItems", v) => ∃ n, v = .nat n
  | ("description", v) => ∃ text, v = .string text
  | ("deprecated", v) => ∃ b, v = .bool b
  | ("const", _) => True
  | ("default", _) => True
  | _ => False

/-- A list of schemas is not empty. -/
def Filled : String × Json → Prop
  | ("anyOf", v) => v ≠ .array []
  | ("items", v) => v ≠ .array []
  | _ => True

/-- Every keyword with its argument, in the schema and in the schemas inside it at any depth. -/
def Throughout (P : String × Json → Prop) (f : Json) : Prop :=
  ∀ schema, Subschema (.object schema) f → ∀ entry ∈ schema, P entry

/-- A schema conforms if the dialect permits all its keywords, and those of the schemas inside it,
and no list of schemas is empty. -/
def Conforms (f : Json) : Prop := IsSchema f ∧ Throughout Permits f ∧ Throughout Filled f

/-! ## Layer by layer -/

/-- The schemas directly inside a schema. -/
def inner (schema : Fragment) : List Json := schema.flatMap Fragment.inside

theorem inner_anyOf (fs : List Fragment) : inner (.anyOf fs) = fs.map .object := by
  simp [inner, Fragment.anyOf, Fragment.list, Fragment.inside]

theorem inner_tuple (fs : List Fragment) : inner (.tuple fs) = fs.map .object := by
  simp [inner, Fragment.tuple, Fragment.list, Fragment.inside]

theorem inner_record (properties : Fragment) (additional : Bool) (required : List String) :
    inner (.record properties additional required) =
      properties.map Prod.snd ++ [.bool additional] := by
  rw [inner, Fragment.record]
  split <;> simp [Fragment.inside]

section

variable {P : String × Json → Prop}

/-- All the keywords are those of the schema itself, and those of the schemas directly inside. -/
theorem throughout_iff {schema : Fragment} :
    Throughout P (.object schema) ↔
      (∀ entry ∈ schema, P entry) ∧ ∀ g ∈ inner schema, Throughout P g := by
  constructor
  · intro h
    refine ⟨h schema (.refl _), fun g hg f hf => ?_⟩
    obtain ⟨entry, hentry, hinside⟩ := List.mem_flatMap.mp hg
    exact h f (.step hentry hinside hf)
  · rintro ⟨hown, hinner⟩ f hf
    cases hf with
    | refl => exact hown
    | step mem hg inner => exact hinner _ (List.mem_flatMap.mpr ⟨_, mem, hg⟩) f inner

theorem throughout_bool (b : Bool) : Throughout P (.bool b) := by
  intro schema h
  cases h

theorem throughout_flat {schema : Fragment} (h : inner schema = []) :
    Throughout P (.object schema) ↔ ∀ entry ∈ schema, P entry := by
  rw [throughout_iff, h]
  simp

/-- A nullable struct adds the schema of null to the one inside it. -/
theorem throughout_wrapper {w : Wrapper} (hw : w ≠ .option) (hnull : P ("type", .string "null"))
    {f : Fragment} : Throughout P (.object (w.fragment f)) ↔
      (∀ entry ∈ w.fragment f, P entry) ∧ Throughout P (.object f) := by
  have hschema : Throughout P (.object Fragment.null) :=
    (throughout_flat rfl).mpr (List.forall_mem_singleton.mpr hnull)
  have harray : inner (.array f) = [.object f] := rfl
  have hdict : inner (.dict f) = [.object f] := rfl
  rw [throughout_iff]
  cases w with
  | option => exact absurd rfl hw
  | nullable => simp [Wrapper.fragment, Fragment.nullable, inner_anyOf, hschema]
  | array => simp [Wrapper.fragment, harray]
  | dict => simp [Wrapper.fragment, hdict]

theorem throughout_series (k : Series) {fs : List Fragment} :
    Throughout P (.object (k.fragment fs)) ↔
      (∀ entry ∈ k.fragment fs, P entry) ∧ ∀ f ∈ fs, Throughout P (.object f) := by
  rw [throughout_iff]
  cases k with
  | tuple => rw [Series.fragment, inner_tuple, List.forall_mem_map]
  | union => rw [Series.fragment, inner_anyOf, List.forall_mem_map]

/-- The properties of an object, one for each of its fields. -/
def properties (nodes : List (String × Node)) : Fragment :=
  nodes.map fun node => (node.1, .object node.2.schema)

theorem keys_properties (nodes : List (String × Node)) :
    Table.keys (properties nodes) = Table.keys nodes :=
  Table.keys_map (fun node : Node => Json.object node.schema) nodes

theorem objectFragment_eq {nodes : List (String × Node)} (hdistinct : Table.Distinct nodes)
    (policy : UnknownKeys) :
    objectFragment policy nodes = .record (properties nodes) (policy == .passthrough)
      ((nodes.filter fun node => node.2.required).map Prod.fst) := by
  have hlist : Table.ofList (properties nodes) = properties nodes :=
    (hdistinct.map fun node => Json.object node.schema).ofList_eq
  rw [← hlist]
  rfl

theorem throughout_object {nodes : List (String × Node)} (hdistinct : Table.Distinct nodes)
    (policy : UnknownKeys) :
    Throughout P (.object (objectFragment policy nodes)) ↔
      (∀ entry ∈ objectFragment policy nodes, P entry) ∧
        ∀ node ∈ nodes, Throughout P (.object node.2.schema) := by
  rw [throughout_iff, objectFragment_eq hdistinct, inner_record, List.forall_mem_append,
    List.forall_mem_singleton, List.forall_mem_map, properties, List.forall_mem_map]
  simp only [throughout_bool, and_true]

/-- A schema with the keywords of another, and with silent ones, which have no schemas inside. -/
theorem throughout_of_entries {base schema : Fragment} (hbase : Throughout P (.object base))
    (h : ∀ entry ∈ schema, entry ∈ base ∨ entry.1 ∈ Reading.silentKeywords ∧ P entry) :
    Throughout P (.object schema) := by
  obtain ⟨hown, hinner⟩ := throughout_iff.mp hbase
  refine throughout_iff.mpr ⟨fun entry hentry => ?_, fun g hg => ?_⟩
  · rcases h entry hentry with hentry | ⟨-, hentry⟩
    · exact hown entry hentry
    · exact hentry
  · obtain ⟨entry, hentry, hinside⟩ := List.mem_flatMap.mp hg
    rcases h entry hentry with hentry | ⟨hsilent, -⟩
    · exact hinner g (List.mem_flatMap.mpr ⟨entry, hentry, hinside⟩)
    · rw [inside_silent hsilent] at hinside
      cases hinside

end

/-! ## What the fragments of shapes have -/

theorem areSchemas_list (fs : List Fragment) : AreSchemas (Fragment.list fs) :=
  ⟨_, rfl, List.forall_mem_map.mpr fun f _ => .inl ⟨f, rfl⟩⟩

theorem permits_type {name : String} (h : name ∈ typeNames) : Permits ("type", .string name) :=
  ⟨name, h, rfl⟩

theorem permits_ofType {name : String} (h : name ∈ typeNames) :
    Throughout Permits (.object (Fragment.ofType name)) :=
  (throughout_flat rfl).mpr (List.forall_mem_singleton.mpr (permits_type h))

theorem permits_const {name : String} (h : name ∈ typeNames) (value : Json) :
    Throughout Permits (.object [("type", .string name), ("const", value)]) :=
  (throughout_flat rfl).mpr
    (List.forall_mem_cons.mpr ⟨permits_type h, List.forall_mem_singleton.mpr trivial⟩)

theorem permits_leaf {l : Leaf} {f : Fragment} (hf : l.fragment? = some f) :
    Throughout Permits (.object f) := by
  have hempty : Throughout Permits (.object []) := (throughout_flat rfl).mpr (by simp)
  have hnames : "string" ∈ typeNames ∧ "integer" ∈ typeNames ∧ "number" ∈ typeNames ∧
      "boolean" ∈ typeNames ∧ "null" ∈ typeNames := by
    decide
  obtain ⟨hstring, hinteger, hnumber, hboolean, hnull⟩ := hnames
  cases l with
  | never =>
    obtain rfl := Option.some.inj hf
    exact throughout_iff.mpr ⟨List.forall_mem_singleton.mpr (.inl ⟨_, rfl⟩),
      List.forall_mem_singleton.mpr hempty⟩
  | unknown =>
    obtain rfl := Option.some.inj hf
    exact hempty
  | string =>
    obtain rfl := Option.some.inj hf
    exact permits_ofType hstring
  | int =>
    obtain rfl := Option.some.inj hf
    exact permits_ofType hinteger
  | float =>
    obtain rfl := Option.some.inj hf
    exact permits_ofType hnumber
  | bool =>
    obtain rfl := Option.some.inj hf
    exact permits_ofType hboolean
  | date => cases hf
  | literal value =>
    rcases value with _ | _ | _ | s | i | (x | _ | _) | b <;> cases hf
    · exact permits_ofType hnull
    · exact permits_const hstring _
    · exact permits_const hinteger _
    · exact permits_const hnumber _
    · exact permits_const hboolean _

theorem permits_wrapper {w : Wrapper} (hw : w ≠ .option) (f : Fragment) :
    ∀ entry ∈ w.fragment f, Permits entry := by
  have hf : IsSchema (.object f) := .inl ⟨f, rfl⟩
  have hnames : "array" ∈ typeNames ∧ "object" ∈ typeNames := by
    decide
  cases w with
  | option => exact absurd rfl hw
  | nullable => exact List.forall_mem_singleton.mpr (areSchemas_list [f, .null])
  | array =>
    exact List.forall_mem_cons.mpr
      ⟨.inl hf, List.forall_mem_singleton.mpr (permits_type hnames.1)⟩
  | dict =>
    exact List.forall_mem_cons.mpr
      ⟨permits_type hnames.2, List.forall_mem_singleton.mpr hf⟩

theorem permits_series (k : Series) (fs : List Fragment) :
    ∀ entry ∈ k.fragment fs, Permits entry := by
  have hfs := areSchemas_list fs
  cases k with
  | tuple =>
    have hcount : ∃ n : Nat, Json.nat fs.length = .nat n := ⟨_, rfl⟩
    have htype : Permits ("type", .string "array") := permits_type (by decide)
    rw [Series.fragment, Fragment.tuple]
    simp only [List.forall_mem_cons]
    exact ⟨.inr hfs, htype, hcount, hcount, by simp⟩
  | union => exact List.forall_mem_singleton.mpr hfs

theorem permits_object {nodes : List (String × Node)} (hdistinct : Table.Distinct nodes)
    (policy : UnknownKeys) : ∀ entry ∈ objectFragment policy nodes, Permits entry := by
  have hproperties : Permits ("properties", .object (properties nodes)) := by
    refine ⟨_, rfl, ?_, List.forall_mem_map.mpr fun node _ => .inl ⟨_, rfl⟩⟩
    rw [Table.Distinct, keys_properties]
    exact hdistinct
  have hrequired : ((nodes.filter fun node => node.2.required).map Prod.fst).Nodup :=
    hdistinct.filter _
  have hadditional : IsSchema (.bool (policy == .passthrough)) := .inr ⟨_, rfl⟩
  rw [objectFragment_eq hdistinct, Fragment.record]
  refine List.forall_mem_append.mpr ⟨?_, ?_⟩
  · simp only [List.forall_mem_cons]
    exact ⟨permits_type (by decide), hproperties, hadditional, by simp⟩
  · split
    · simp
    · exact List.forall_mem_singleton.mpr ⟨_, rfl, hrequired⟩

theorem permits_ofDeprecation (mark : Deprecation) :
    ∀ entry ∈ Fragment.ofDeprecation mark, Permits entry := by
  cases mark with
  | flagged => exact List.forall_mem_singleton.mpr ⟨true, rfl⟩
  | withMessage message =>
    exact List.forall_mem_cons.mpr ⟨⟨true, rfl⟩, List.forall_mem_singleton.mpr ⟨message, rfl⟩⟩

theorem permits_patch {s : Struct} (hraw : s.Unpatched) (encoded : Option Json) :
    ∀ entry ∈ s.patch encoded, Permits entry := by
  rw [hraw.patch_eq]
  refine List.forall_mem_append.mpr ⟨?_, ?_⟩
  · cases s.deprecation with
    | none => simp
    | some mark => exact permits_ofDeprecation mark
  · cases encoded with
    | none => simp
    | some value => exact List.forall_mem_singleton.mpr trivial

end Dialect

namespace Struct

open Dialect

variable {limit depth : Nat}

/-! ## All structs -/

/-- What the schema of a node has throughout is what the fragment of its shape has. -/
theorem permits_of_shape {s : Struct} (hraw : s.Unpatched) {node : Node}
    (hnode : (s.lower limit depth).result = .ok node)
    (hshape : ∀ base, (lowerShape limit s.shape (depth + 1)).result = .ok base →
      Throughout Permits (.object base.schema)) : Throughout Permits (.object node.schema) := by
  obtain ⟨-, base, hbase, encoded, -, rfl⟩ := lower_eq_ok.mp hnode
  refine throughout_of_entries (hshape base hbase) fun entry hentry => ?_
  rcases Table.mem_merge hentry with hentry | hentry
  · exact .inl hentry
  · exact .inr ⟨hraw.keys_patch encoded _ (Table.mem_keys_of_mem hentry),
      permits_patch hraw encoded entry hentry⟩

/-- **Keywords are as the dialect permits**, but for empty lists of schemas. -/
theorem permits_lower {s : Struct} (hs : s.WellFormed) (hraw : s.Unpatched) {node : Node}
    (hnode : (s.lower limit depth).result = .ok node) : Throughout Permits (.object node.schema) := by
  induction s using Struct.induction generalizing depth node with
  | leaf l m =>
    refine permits_of_shape hraw hnode fun base hbase => ?_
    obtain ⟨f, hf, rfl⟩ := lowerShape_leaf_eq_ok.mp hbase
    exact permits_leaf hf
  | wrapper w inner m ih =>
    refine permits_of_shape hraw hnode fun base hbase => ?_
    obtain ⟨f, hinner, rfl⟩ := lowerShape_wrapper_eq_ok.mp hbase
    have hpart : inner ∈ (Struct.mk (.wrapper w inner) m).shape.parts := by
      simp [Struct.shape, Shape.parts]
    have hf : Throughout Permits (.object f) := ih (hs.part hpart) (hraw.part hpart) hinner
    -- An option has the fragment of what is in it, with no keyword of its own.
    by_cases hw : w = .option
    · subst hw
      exact hf
    · exact (throughout_wrapper hw ⟨_, by simp [typeNames], rfl⟩).mpr ⟨permits_wrapper hw f, hf⟩
  | series k items m ih =>
    refine permits_of_shape hraw hnode fun base hbase => ?_
    obtain ⟨fs, hfs, rfl⟩ := lowerShape_series_eq_ok.mp hbase
    refine (throughout_series k).mpr ⟨permits_series k fs, fun f hf => ?_⟩
    obtain ⟨s, hmem, hlower⟩ := exists_left_of_mem hfs hf
    exact ih s hmem (hs.part hmem) (hraw.part hmem) hlower
  | object fields policy m ih =>
    refine permits_of_shape hraw hnode fun base hbase => ?_
    obtain ⟨nodes, hnodes, rfl⟩ := lowerShape_object_eq_ok.mp hbase
    have hdistinct : Table.Distinct nodes := by
      rw [Table.Distinct, Table.keys_eq_of_forall₂ hnodes fun _ _ h => h.1]
      exact hs.1
    refine (throughout_object hdistinct policy).mpr ⟨permits_object hdistinct policy, fun out hout => ?_⟩
    obtain ⟨field, hfield, -, hlower⟩ := exists_left_of_mem hnodes hout
    have hpart : field.2 ∈ (Struct.mk (.object fields policy) m).shape.parts :=
      List.mem_map_of_mem hfield
    exact ih field hfield (hs.part hpart) (hraw.part hpart) hlower

theorem permits_document {root : Fragment} (hroot : Table.Distinct root)
    (h : Throughout Permits (.object root)) :
    Throughout Permits (.object (Fragment.document root)) := by
  rw [document_eq hroot]
  refine throughout_of_entries h fun entry hentry => ?_
  rcases List.mem_cons.mp hentry with rfl | hentry
  · exact .inr ⟨by simp [Reading.silentKeywords], rfl⟩
  · exact .inl (List.mem_of_mem_filter hentry)

/-! ## Empty lists -/

/-- No tuple and no union in the struct is without items. -/
def HasItems (s : Struct) : Prop := ∀ t, Within t s → ∀ k, t.shape ≠ .series k []

theorem hasItems_mk {shape : Shape Struct} {m : Metadata} :
    (Struct.mk shape m).HasItems ↔
      (∀ k, shape ≠ .series k []) ∧ ∀ part ∈ shape.parts, part.HasItems :=
  forall_within

theorem filled_silent {entry : String × Json} (h : entry.1 ∈ Reading.silentKeywords) :
    Filled entry := by
  obtain ⟨keyword, argument⟩ := entry
  simp only [Reading.silentKeywords, List.mem_cons, List.not_mem_nil, or_false] at h
  rcases h with rfl | rfl | rfl | rfl <;> trivial

/-- Silent keywords do not matter. -/
theorem filled_of_entries {base schema : Fragment} (hbase : Throughout Filled (.object base))
    (h : ∀ entry ∈ schema, entry ∈ base ∨ entry.1 ∈ Reading.silentKeywords) :
    Throughout Filled (.object schema) :=
  throughout_of_entries hbase fun entry hentry =>
    (h entry hentry).imp id fun hsilent => ⟨hsilent, filled_silent hsilent⟩

theorem filled_merge {base patch : Fragment}
    (hpatch : ∀ keyword ∈ Table.keys patch, keyword ∈ Reading.silentKeywords) :
    Throughout Filled (.object (Table.merge base patch)) ↔ Throughout Filled (.object base) := by
  constructor
  · intro h
    refine filled_of_entries h fun entry hentry => ?_
    by_cases hkey : entry.1 ∈ Table.keys patch
    · exact .inr (hpatch _ hkey)
    · exact .inl (Table.mem_merge_of_not_mem hentry hkey)
  · intro h
    refine filled_of_entries h fun entry hentry => ?_
    exact (Table.mem_merge hentry).imp id fun hentry => hpatch _ (Table.mem_keys_of_mem hentry)

theorem filled_document {root : Fragment} (hroot : Table.Distinct root) :
    Throughout Filled (.object (Fragment.document root)) ↔ Throughout Filled (.object root) := by
  have hdialect : "$schema" ∈ Reading.silentKeywords := by simp [Reading.silentKeywords]
  rw [document_eq hroot]
  constructor
  · intro h
    refine filled_of_entries h fun entry hentry => ?_
    by_cases hkey : entry.1 = "$schema"
    · exact .inr (hkey ▸ hdialect)
    · exact .inl (List.mem_cons_of_mem _ (List.mem_filter.mpr ⟨hentry, by simpa using hkey⟩))
  · intro h
    refine filled_of_entries h fun entry hentry => ?_
    rcases List.mem_cons.mp hentry with rfl | hentry
    · exact .inr hdialect
    · exact .inl (List.mem_of_mem_filter hentry)

theorem filled_leaf {l : Leaf} {f : Fragment} (hf : l.fragment? = some f) :
    Throughout Filled (.object f) := by
  have hempty : Throughout Filled (.object []) := (throughout_flat rfl).mpr (by simp)
  rcases Leaf.fragment_form hf with rfl | rfl | ⟨name, rfl⟩ | ⟨name, value, rfl⟩
  · exact throughout_iff.mpr ⟨List.forall_mem_singleton.mpr trivial,
      List.forall_mem_singleton.mpr hempty⟩
  · exact hempty
  · exact (throughout_flat rfl).mpr (by simp [Fragment.ofType, Filled])
  · exact (throughout_flat rfl).mpr (by simp [Filled])

theorem filled_wrapper {w : Wrapper} (hw : w ≠ .option) (f : Fragment) :
    ∀ entry ∈ w.fragment f, Filled entry := by
  cases w with
  | option => exact absurd rfl hw
  | nullable => simp [Wrapper.fragment, Fragment.nullable, Fragment.anyOf, Fragment.list, Filled]
  | array => simp [Wrapper.fragment, Fragment.array, Filled]
  | dict => simp [Wrapper.fragment, Fragment.dict, Filled]

theorem filled_series (k : Series) {fs : List Fragment} :
    (∀ entry ∈ k.fragment fs, Filled entry) ↔ fs ≠ [] := by
  cases k <;> simp [Series.fragment, Fragment.tuple, Fragment.anyOf, Fragment.list, Filled]

theorem filled_object (policy : UnknownKeys) (nodes : List (String × Node)) :
    ∀ entry ∈ objectFragment policy nodes, Filled entry := by
  rw [objectFragment, Fragment.record]
  split <;> simp [Filled]

/-- **Empty lists come from empty series.** Nowhere in the schema of a node is a list of schemas
empty if and only if no tuple and no union in the struct is without items. -/
theorem filled_lower {s : Struct} (hs : s.WellFormed) (hraw : s.Unpatched) {node : Node}
    (hnode : (s.lower limit depth).result = .ok node) :
    Throughout Filled (.object node.schema) ↔ s.HasItems := by
  induction s using Struct.induction generalizing depth node with
  | leaf l m =>
    obtain ⟨-, base, hbase, encoded, -, rfl⟩ := lower_eq_ok.mp hnode
    obtain ⟨f, hf, rfl⟩ := lowerShape_leaf_eq_ok.mp hbase
    rw [filled_merge (hraw.keys_patch encoded), hasItems_mk]
    simp [filled_leaf hf, Shape.parts]
  | wrapper w inner m ih =>
    obtain ⟨-, base, hbase, encoded, -, rfl⟩ := lower_eq_ok.mp hnode
    obtain ⟨f, hinner, rfl⟩ := lowerShape_wrapper_eq_ok.mp hbase
    have hpart : inner ∈ (Struct.mk (.wrapper w inner) m).shape.parts := by
      simp [Struct.shape, Shape.parts]
    have hf : Throughout Filled (.object f) ↔ inner.HasItems :=
      ih (hs.part hpart) (hraw.part hpart) hinner
    have hbase : Throughout Filled (.object (w.fragment f)) ↔ Throughout Filled (.object f) := by
      by_cases hw : w = .option
      · subst hw
        exact Iff.rfl
      · rw [throughout_wrapper hw trivial, and_iff_right (filled_wrapper hw f)]
    rw [filled_merge (hraw.keys_patch encoded), hbase, hf, hasItems_mk]
    simp [Shape.parts]
  | series k items m ih =>
    obtain ⟨-, base, hbase, encoded, -, rfl⟩ := lower_eq_ok.mp hnode
    obtain ⟨fs, hfs, rfl⟩ := lowerShape_series_eq_ok.mp hbase
    rw [filled_merge (hraw.keys_patch encoded), hasItems_mk, throughout_series, filled_series]
    refine and_congr ?_ ?_
    · cases hfs <;> simp
    · constructor
      · intro h s hmem
        obtain ⟨f, hf, hlower⟩ := exists_right_of_mem hfs hmem
        exact (ih s hmem (hs.part hmem) (hraw.part hmem) hlower).mp (h f hf)
      · intro h f hf
        obtain ⟨s, hmem, hlower⟩ := exists_left_of_mem hfs hf
        exact (ih s hmem (hs.part hmem) (hraw.part hmem) hlower).mpr (h s hmem)
  | object fields policy m ih =>
    obtain ⟨-, base, hbase, encoded, -, rfl⟩ := lower_eq_ok.mp hnode
    obtain ⟨nodes, hnodes, rfl⟩ := lowerShape_object_eq_ok.mp hbase
    have hdistinct : Table.Distinct nodes := by
      rw [Table.Distinct, Table.keys_eq_of_forall₂ hnodes fun _ _ h => h.1]
      exact hs.1
    have hpart : ∀ field ∈ fields, field.2 ∈ (Struct.mk (.object fields policy) m).shape.parts :=
      fun field hfield => List.mem_map_of_mem hfield
    have hfield : ∀ field ∈ fields, ∀ out : Node, (field.2.lower limit (depth + 1)).result = .ok out →
        (Throughout Filled (.object out.schema) ↔ field.2.HasItems) := fun field hmem out hout =>
      ih field hmem (hs.part (hpart field hmem)) (hraw.part (hpart field hmem)) hout
    rw [filled_merge (hraw.keys_patch encoded), hasItems_mk, throughout_object hdistinct]
    refine and_congr (iff_of_true (filled_object policy nodes) (by simp)) ?_
    rw [Shape.parts, List.forall_mem_map]
    constructor
    · intro h field hmem
      obtain ⟨out, hout, -, hlower⟩ := exists_right_of_mem hnodes hmem
      exact (hfield field hmem out.2 hlower).mp (h out hout)
    · intro h out hout
      obtain ⟨field, hmem, -, hlower⟩ := exists_left_of_mem hnodes hout
      exact (hfield field hmem out.2 hlower).mpr (h field hmem)

end Struct

open Dialect

/-- **Documents are in the dialect, but for empty lists of schemas.** All keywords of a document are
as the dialect permits, at any depth, and it says its dialect. It conforms if and only if no tuple
and no union in the struct is without items: the argument of `items` or of `anyOf` must not be empty. -/
theorem document_conforms_iff (s : Struct) (hs : s.WellFormed) (hraw : s.Unpatched) (config : Config)
    (doc : Json) (hdoc : s.documentWith config = .ok doc) :
    Throughout Permits doc ∧
      (∃ root, doc = .object root ∧
        Table.find? "$schema" root = some (.string Fragment.dialect)) ∧
      (Conforms doc ↔ s.HasItems) := by
  obtain ⟨f, hlower, rfl⟩ := Struct.documentWith_eq_ok.mp hdoc
  have hroot : Table.Distinct f := Struct.distinct_lower hlower
  have hpermits : Throughout Permits (.object (Fragment.document f)) :=
    Struct.permits_document hroot (Struct.permits_lower hs hraw hlower)
  refine ⟨hpermits, ⟨_, rfl, Table.find?_insert_self _ _ _⟩, ?_⟩
  rw [Conforms, and_iff_right (.inl ⟨_, rfl⟩), and_iff_right hpermits, Struct.filled_document hroot]
  exact Struct.filled_lower hs hraw hlower

/-- A location, as a pair of numbers or as a name. -/
def location : Struct := .union [.tuple [.float, .float], .string]

theorem document_conforms_iff_location : location.WellFormed ∧ location.Unpatched ∧
    ∃ doc, location.documentWith {} = .ok doc ∧ Conforms doc := by
  have hs : location.WellFormed := by
    simp [location, Struct.union, Struct.tuple, Struct.WellFormed, Struct.WellFormedItems, Struct.float,
      Struct.string, Struct.leaf, Leaf.InRange, Metadata.WellFormed, Table.Distinct]
  have hraw : location.Unpatched := by
    simp [location, Struct.union, Struct.tuple, Struct.unpatched_mk, Shape.parts, Table.find?,
      Struct.float, Struct.string, Struct.leaf]
  have hitems : location.HasItems := by
    simp [location, Struct.union, Struct.tuple, Struct.hasItems_mk, Shape.parts, Struct.float,
      Struct.string, Struct.leaf]
  obtain ⟨doc, hdoc⟩ : ∃ doc, location.documentWith {} = .ok doc := ⟨_, rfl⟩
  exact ⟨hs, hraw, doc, hdoc, (document_conforms_iff location hs hraw {} doc hdoc).2.2.mpr hitems⟩

/-- The documents of the union and of the tuple without items do not conform. -/
theorem empty_series_not_conforming :
    (∃ doc, (Struct.union []).documentWith {} = .ok doc ∧ ¬ Conforms doc) ∧
      ∃ doc, (Struct.tuple []).documentWith {} = .ok doc ∧ ¬ Conforms doc := by
  constructor
  · refine ⟨.object [("$schema", .string Fragment.dialect), ("anyOf", .array [])], rfl, ?_⟩
    intro hconforms
    exact hconforms.2.2 _ (.refl _) ("anyOf", .array []) (by simp) rfl
  · refine ⟨.object [("$schema", .string Fragment.dialect), ("items", .array []),
      ("type", .string "array"), ("minItems", .nat 0), ("maxItems", .nat 0)], rfl, ?_⟩
    intro hconforms
    exact hconforms.2.2 _ (.refl _) ("items", .array []) (by simp) rfl

end ShapeSchema
