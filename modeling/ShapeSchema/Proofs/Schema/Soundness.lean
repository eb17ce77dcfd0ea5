import ShapeSchema.Proofs.Schema.Encoding
import ShapeSchema.Proofs.Schema.Meaning

/-!
# What is emitted is valid

Lowering and encoding go through a struct independently of each other. What a struct emits for a
value is valid under the schema it is lowered to, with one exception: an option emits null, for
which its schema, that of the struct inside, need not have a place.
-/

namespace ShapeSchema

open Reading

namespace Struct

variable {limit depth : Nat}

/-- What a struct emits is valid, unless it is an option that emits null. -/
def Emits (s : Struct) (schema : Fragment) : Prop :=
  ∀ v w, s.encode v = .ok w → (s.isOption = true ∧ w = .null) ∨ doubles.Valid w schema

/-- Nothing is left to except for a struct that may not be absent. -/
theorem Emits.valid {s : Struct} {schema : Fragment} (h : s.Emits schema)
    (hs : s.isOptional = false) {v w : Json} (hw : s.encode v = .ok w) : doubles.Valid w schema := by
  rcases h v w hw with ⟨hoption, -⟩ | hvalid
  · simp [isOptional, hoption] at hs
  · exact hvalid

theorem not_isOptional {s : Struct} {f : Fragment}
    (h : (s.lower limit depth).result = .ok ⟨f, true⟩) : s.isOptional = false := by
  simpa using lower_required h

/-! ## Layer by layer -/

theorem emits_leaf {l : Leaf} {f : Fragment} (hf : l.fragment? = some f) (m : Metadata) :
    (Struct.mk (.leaf l) m).Emits f := by
  intro v w hw
  obtain ⟨hv, rfl⟩ := encode_leaf_eq_ok.mp hw
  exact .inr (Leaf.valid_doubles hf hv)

theorem emits_wrapper {inner : Struct} {f : Fragment} (hinner : inner.Emits f)
    (hrequired : inner.isOptional = false) (w : Wrapper) (m : Metadata) :
    (Struct.mk (.wrapper w inner) m).Emits (w.fragment f) := by
  intro v y hy
  cases w with
  | option =>
    -- The struct inside is required, so that null is the only exception.
    rcases (encode_nullish_eq_ok (.inl rfl)).mp hy with ⟨-, rfl⟩ | ⟨-, hy⟩
    · exact .inl ⟨rfl, rfl⟩
    · exact .inr (hinner.valid hrequired hy)
  | nullable =>
    refine .inr (valid_nullable.mpr ?_)
    rcases (encode_nullish_eq_ok (.inr rfl)).mp hy with ⟨-, rfl⟩ | ⟨-, hy⟩
    · exact .inr rfl
    · exact .inl (hinner.valid hrequired hy)
  | array =>
    obtain ⟨vs, ws, rfl, hws, rfl⟩ := encode_array_eq_ok.mp hy
    refine .inr (valid_array.mpr ⟨ws, rfl, fun x hx => ?_⟩)
    obtain ⟨v, -, hv⟩ := exists_left_of_mem hws hx
    exact hinner.valid hrequired hv
  | dict =>
    obtain ⟨entries, out, rfl, hout, rfl⟩ := encode_dict_eq_ok.mp hy
    refine .inr (valid_dict.mpr ⟨out, rfl, fun o ho => ?_⟩)
    obtain ⟨entry, -, -, hentry⟩ := exists_left_of_mem hout ho
    exact hinner.valid hrequired hentry

theorem emits_series {items : List Struct} {fs : List Fragment}
    (hfs : List.Forall₂ (fun s f => s.isOptional = false ∧ s.Emits f) items fs) (k : Series)
    (m : Metadata) : (Struct.mk (.series k items) m).Emits (k.fragment fs) := by
  intro v y hy
  refine .inr ?_
  cases k with
  | tuple =>
    obtain ⟨vs, ws, rfl, hlen, hws, rfl⟩ := encode_tuple_eq_ok.mp hy
    exact valid_tuple.mpr ⟨ws, rfl, forall₂_of_zip hfs hlen hws
      fun s _ f v w ⟨hrequired, hs⟩ hw => hs.valid hrequired hw⟩
  | union =>
    obtain ⟨s, hs, hw⟩ := encodeUnion_eq_some (encode_union_eq_ok.mp hy)
    obtain ⟨f, hf, hrequired, hemits⟩ := exists_right_of_mem hfs hs
    exact valid_anyOf.mpr ⟨f, hf, hemits.valid hrequired hw⟩

theorem emits_object {fields : List (String × Struct)} {nodes : List (String × Node)}
    (hdistinct : Table.Distinct fields)
    (hnodes : List.Forall₂ (fun field out => out.1 = field.1 ∧
      out.2.required = !field.2.isOptional ∧ field.2.Emits out.2.schema) fields nodes)
    (policy : UnknownKeys) (m : Metadata) :
    (Struct.mk (.object fields policy) m).Emits (objectFragment policy nodes) := by
  intro v y hy
  obtain ⟨entries, ws, rfl, hws, -, rfl⟩ := (encode_object_eq_ok hdistinct).mp hy
  have hkeys : Table.keys nodes = Table.keys fields :=
    Table.keys_eq_of_forall₂ hnodes fun _ _ h => h.1
  have hnodes' : Table.Distinct nodes := by
    rw [Table.Distinct, hkeys]
    exact hdistinct
  refine .inr ((valid_objectFragment hnodes').mpr ⟨_, rfl, ?_, ?_, ?_⟩)
  · -- What stands under the name of a field was emitted for that field.
    intro node hnode entry hentry hname
    obtain ⟨field, hfield, hsame, -, hemits⟩ := exists_left_of_mem hnodes hnode
    have hkey : entry.1 ∈ Table.keys fields := by
      rw [hname, hsame]
      exact Table.mem_keys_of_mem hfield
    rcases mem_output hentry with hentry | ⟨-, hentry⟩
    · obtain ⟨field', hfield', hname', hw, hnull⟩ := of_mem_emitted hws hentry
      obtain rfl : field' = field :=
        hdistinct.eq_of_key hfield' hfield (by rw [← hname', hname, hsame])
      exact (hemits _ _ hw).resolve_left hnull
    · exact absurd hkey (mem_excess.mp hentry).2
  · intro entry hentry
    rw [hkeys]
    rcases mem_output hentry with hentry | ⟨hpolicy, -⟩
    · obtain ⟨field, hfield, hname, -⟩ := of_mem_emitted hws hentry
      exact .inl (hname ▸ Table.mem_keys_of_mem hfield)
    · exact .inr hpolicy
  · -- A required field is no option, so that it is always emitted.
    intro node hnode hrequired
    obtain ⟨field, hfield, hsame, hoptional, -⟩ := exists_left_of_mem hnodes hnode
    have hoption : field.2.isOption = false := by
      rw [hrequired, isOptional] at hoptional
      simpa using (Bool.or_eq_false_iff.mp (Bool.not_eq_true' _ ▸ hoptional.symm)).1
    obtain ⟨w, -, hentry⟩ := mem_emitted hws hfield hoption
    rw [hsame]
    exact Table.mem_keys_of_mem (mem_output_of_field hentry (Table.mem_keys_of_mem hfield))

/-! ## All structs -/

/-- **Soundness.** -/
theorem emits_lower {s : Struct} (hs : s.WellFormed) (hraw : s.Unpatched) {node : Node}
    (hnode : (s.lower limit depth).result = .ok node) : s.Emits node.schema := by
  -- In each case `hvalid` takes the metadata off, and the layer above does the rest.
  induction s using Struct.induction generalizing depth node with
  | leaf l m =>
    obtain ⟨base, hbase, hvalid⟩ := hraw.lower_eq_ok hnode
    obtain ⟨f, hf, rfl⟩ := lowerShape_leaf_eq_ok.mp hbase
    exact fun v w hw => (emits_leaf hf m v w hw).imp id hvalid.mpr
  | wrapper w inner m ih =>
    obtain ⟨base, hbase, hvalid⟩ := hraw.lower_eq_ok hnode
    obtain ⟨f, hinner, rfl⟩ := lowerShape_wrapper_eq_ok.mp hbase
    have hpart : inner ∈ (Struct.mk (.wrapper w inner) m).shape.parts := by
      simp [Struct.shape, Shape.parts]
    have hemits : inner.Emits f := ih (hs.part hpart) (hraw.part hpart) hinner
    exact fun v y hy =>
      (emits_wrapper hemits (not_isOptional hinner) w m v y hy).imp id hvalid.mpr
  | series k items m ih =>
    obtain ⟨base, hbase, hvalid⟩ := hraw.lower_eq_ok hnode
    obtain ⟨fs, hfs, rfl⟩ := lowerShape_series_eq_ok.mp hbase
    have hemits : List.Forall₂ (fun s f => s.isOptional = false ∧ s.Emits f) items fs :=
      forall₂_imp_of_mem hfs fun s hmem f hf =>
        ⟨not_isOptional hf, ih s hmem (hs.part hmem) (hraw.part hmem) hf⟩
    exact fun v w hw => (emits_series hemits k m v w hw).imp id hvalid.mpr
  | object fields policy m ih =>
    obtain ⟨base, hbase, hvalid⟩ := hraw.lower_eq_ok hnode
    obtain ⟨nodes, hnodes, rfl⟩ := lowerShape_object_eq_ok.mp hbase
    have hemits : List.Forall₂ (fun field out => out.1 = field.1 ∧
        out.2.required = !field.2.isOptional ∧ field.2.Emits out.2.schema) fields nodes := by
      refine forall₂_imp_of_mem hnodes fun field hmem out hnode => ?_
      obtain ⟨hname, hout⟩ := hnode
      have hpart : field.2 ∈ (Struct.mk (.object fields policy) m).shape.parts :=
        List.mem_map_of_mem hmem
      exact ⟨hname, lower_required hout, ih field hmem (hs.part hpart) (hraw.part hpart) hout⟩
    exact fun v w hw => (emits_object hs.1 hemits policy m v w hw).imp id hvalid.mpr

end Struct

end ShapeSchema
