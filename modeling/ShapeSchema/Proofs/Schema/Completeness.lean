import ShapeSchema.Proofs.Schema.Soundness

/-!
# What is valid is accepted

The converse of soundness, for structs without defaults: a value that is valid under the schema of a
struct, with numbers read exactly, is accepted by the struct.
-/

namespace ShapeSchema

open Reading

namespace Struct

variable {limit depth : Nat}

/-- No node of the struct has a default. -/
def Undefaulted (s : Struct) : Prop := ∀ t, Within t s → t.defaultValue = none

theorem undefaulted_mk {shape : Shape Struct} {m : Metadata} :
    (Struct.mk shape m).Undefaulted ↔ m.default = none ∧ ∀ part ∈ shape.parts, part.Undefaulted :=
  forall_within

theorem Undefaulted.part {s part : Struct} (h : s.Undefaulted) (mem : part ∈ s.shape.parts) :
    part.Undefaulted :=
  fun t ht => h t (ht.trans (.of_part mem))

/-- The struct accepts every value that is valid under the schema. -/
def Accepts (s : Struct) (schema : Fragment) : Prop :=
  ∀ v, exact.Valid v schema → ∃ w, s.encode v = .ok w

/-! ## Layer by layer -/

theorem accepts_leaf {l : Leaf} {f : Fragment} (hf : l.fragment? = some f) (m : Metadata) :
    (Struct.mk (.leaf l) m).Accepts f :=
  fun v hv => ⟨v, encode_leaf_eq_ok.mpr ⟨(Leaf.valid_exact hf).mp hv, rfl⟩⟩

theorem accepts_nullish {inner : Struct} {wr : Wrapper} (hwr : wr = .option ∨ wr = .nullable)
    (m : Metadata) {v : Json} (h : v ≠ .null → ∃ w, inner.encode v = .ok w) :
    ∃ w, (Struct.mk (.wrapper wr inner) m).encode v = .ok w := by
  by_cases hnull : v = .null
  · exact ⟨.null, (encode_nullish_eq_ok hwr).mpr (.inl ⟨hnull, rfl⟩)⟩
  · obtain ⟨w, hw⟩ := h hnull
    exact ⟨w, (encode_nullish_eq_ok hwr).mpr (.inr ⟨hnull, hw⟩)⟩

/-- An option accepts null. -/
theorem encode_null_of_isOption {s : Struct} (h : s.isOption = true) :
    ∃ w, s.encode .null = .ok w := by
  rw [isOption.eq_def] at h
  split at h
  · exact accepts_nullish (.inl rfl) _ fun hnull => absurd rfl hnull
  · cases h

theorem accepts_wrapper {inner : Struct} {f : Fragment} (hinner : inner.Accepts f) (w : Wrapper)
    (m : Metadata) : (Struct.mk (.wrapper w inner) m).Accepts (w.fragment f) := by
  intro v hv
  cases w with
  | option => exact accepts_nullish (.inl rfl) m fun _ => hinner v hv
  | nullable =>
    exact accepts_nullish (.inr rfl) m fun hnull => hinner v ((valid_nullable.mp hv).resolve_right hnull)
  | array =>
    obtain ⟨vs, rfl, hvs⟩ := valid_array.mp hv
    obtain ⟨ws, hws⟩ := exists_forall₂ fun v hmem => hinner v (hvs v hmem)
    exact ⟨_, encode_array_eq_ok.mpr ⟨vs, ws, rfl, hws, rfl⟩⟩
  | dict =>
    obtain ⟨entries, rfl, hentries⟩ := valid_dict.mp hv
    obtain ⟨out, hout⟩ : ∃ out, List.Forall₂ (fun entry o : String × Json => o.1 = entry.1 ∧
        inner.encode entry.2 = .ok o.2) entries out := by
      refine exists_forall₂ fun entry hmem => ?_
      obtain ⟨w, hw⟩ := hinner entry.2 (hentries entry hmem)
      exact ⟨(entry.1, w), rfl, hw⟩
    exact ⟨_, encode_dict_eq_ok.mpr ⟨entries, out, rfl, hout, rfl⟩⟩

theorem accepts_series {items : List Struct} {fs : List Fragment}
    (hfs : List.Forall₂ Accepts items fs) (k : Series) (m : Metadata) :
    (Struct.mk (.series k items) m).Accepts (k.fragment fs) := by
  intro v hv
  cases k with
  | tuple =>
    obtain ⟨vs, rfl, hvs⟩ := valid_tuple.mp hv
    have hlen : vs.length = items.length := by rw [← hvs.length_eq, hfs.length_eq]
    obtain ⟨ws, hws⟩ : ∃ ws, List.Forall₂ (fun p w => Struct.encode p.1 p.2 = .ok w)
        (items.zip vs) ws := by
      have haccepted : List.Forall₂ (fun s v => ∃ w, Struct.encode s v = .ok w) items vs :=
        forall₂_trans hfs hvs fun s f v hs hvalid => hs v hvalid
      exact exists_forall₂ fun p hp => List.forall₂_zip haccepted hp
    exact ⟨_, encode_tuple_eq_ok.mpr ⟨vs, ws, rfl, hlen, hws, rfl⟩⟩
  | union =>
    -- The variant that accepts the value need not be the one whose schema it is valid under.
    obtain ⟨f, hf, hvalid⟩ := valid_anyOf.mp hv
    obtain ⟨s, hs, haccepts⟩ := exists_left_of_mem hfs hf
    obtain ⟨w, hw⟩ := haccepts v hvalid
    obtain ⟨w', hw'⟩ := encodeUnion_isSome hs hw
    exact ⟨w', encode_union_eq_ok.mpr hw'⟩

/-- An object is accepted: a field that is present is valid, one that is absent is an option. -/
theorem accepts_object {fields : List (String × Struct)} {nodes : List (String × Node)}
    (hdistinct : Table.Distinct fields)
    (hnodes : List.Forall₂ (fun field out => out.1 = field.1 ∧
      out.2.required = !field.2.isOption ∧ field.2.Accepts out.2.schema) fields nodes)
    (policy : UnknownKeys) (m : Metadata) :
    (Struct.mk (.object fields policy) m).Accepts (objectFragment policy nodes) := by
  intro v hv
  have hkeys : Table.keys nodes = Table.keys fields :=
    Table.keys_eq_of_forall₂ hnodes fun _ _ h => h.1
  have hnodes' : Table.Distinct nodes := by
    rw [Table.Distinct, hkeys]
    exact hdistinct
  obtain ⟨entries, rfl, hproperties, hadditional, hrequired⟩ :=
    (valid_objectFragment hnodes').mp hv
  have hfields : ∀ field ∈ fields, ∃ w, field.2.encode (input entries field) = .ok w := by
    intro field hfield
    obtain ⟨out, hout, hname, hoption, haccepts⟩ := exists_right_of_mem hnodes hfield
    cases hfind : Table.find? field.1 entries with
    | some value =>
      rw [input, hfind, Option.getD_some]
      exact haccepts value (hproperties out hout _ (Table.mem_of_find? hfind) hname.symm)
    | none =>
      -- An absent field is not required, so it is an option, and as such takes the null it is given.
      have habsent : out.2.required = false := by
        refine Bool.eq_false_iff.mpr fun hreq => ?_
        exact Table.find?_eq_none_iff.mp hfind (hname ▸ hrequired out hout hreq)
      have hisOption : field.2.isOption = true := by simpa [habsent] using hoption
      rw [input, hfind, Option.getD_none]
      exact encode_null_of_isOption hisOption
  obtain ⟨ws, hws⟩ := exists_forall₂ hfields
  refine ⟨_, (encode_object_eq_ok hdistinct).mpr ⟨entries, ws, rfl, hws, ?_, rfl⟩⟩
  -- A strict object is not valid with an entry that is not declared.
  rintro rfl
  refine List.eq_nil_iff_forall_not_mem.mpr fun entry hentry => ?_
  obtain ⟨hmem, hunknown⟩ := mem_excess.mp hentry
  rcases hadditional entry hmem with hknown | hpolicy
  · exact hunknown (hkeys ▸ hknown)
  · cases hpolicy

/-! ## All structs -/

theorem accepts_lower {s : Struct} (hs : s.WellFormed) (hraw : s.Unpatched)
    (hdefault : s.Undefaulted) {node : Node} (hnode : (s.lower limit depth).result = .ok node) :
    s.Accepts node.schema := by
  induction s using Struct.induction generalizing depth node with
  | leaf l m =>
    obtain ⟨base, hbase, hvalid⟩ := hraw.lower_eq_ok hnode
    obtain ⟨f, hf, rfl⟩ := lowerShape_leaf_eq_ok.mp hbase
    exact fun v hv => accepts_leaf hf m v (hvalid.mp hv)
  | wrapper w inner m ih =>
    obtain ⟨base, hbase, hvalid⟩ := hraw.lower_eq_ok hnode
    obtain ⟨f, hinner, rfl⟩ := lowerShape_wrapper_eq_ok.mp hbase
    have hpart : inner ∈ (Struct.mk (.wrapper w inner) m).shape.parts := by
      simp [Struct.shape, Shape.parts]
    have haccepts : inner.Accepts f :=
      ih (hs.part hpart) (hraw.part hpart) (hdefault.part hpart) hinner
    exact fun v hv => accepts_wrapper haccepts w m v (hvalid.mp hv)
  | series k items m ih =>
    obtain ⟨base, hbase, hvalid⟩ := hraw.lower_eq_ok hnode
    obtain ⟨fs, hfs, rfl⟩ := lowerShape_series_eq_ok.mp hbase
    have haccepts : List.Forall₂ Accepts items fs :=
      forall₂_imp_of_mem hfs fun s hmem f hf =>
        ih s hmem (hs.part hmem) (hraw.part hmem) (hdefault.part hmem) hf
    exact fun v hv => accepts_series haccepts k m v (hvalid.mp hv)
  | object fields policy m ih =>
    obtain ⟨base, hbase, hvalid⟩ := hraw.lower_eq_ok hnode
    obtain ⟨nodes, hnodes, rfl⟩ := lowerShape_object_eq_ok.mp hbase
    have haccepts : List.Forall₂ (fun field out => out.1 = field.1 ∧
        out.2.required = !field.2.isOption ∧ field.2.Accepts out.2.schema) fields nodes := by
      refine forall₂_imp_of_mem hnodes fun field hmem out hnode => ?_
      obtain ⟨hname, hout⟩ := hnode
      have hpart : field.2 ∈ (Struct.mk (.object fields policy) m).shape.parts :=
        List.mem_map_of_mem hmem
      refine ⟨hname, ?_, ih field hmem (hs.part hpart) (hraw.part hpart) (hdefault.part hpart) hout⟩
      -- Without defaults, only the options are optional.
      rw [lower_required hout, isOptional, hdefault.part hpart field.2 (.refl _)]
      simp
    exact fun v hv => accepts_object hs.1 haccepts policy m v (hvalid.mp hv)

end Struct

/-- **Completeness of schemas.** A struct without defaults accepts every value that is valid under
its document, with numbers read exactly. -/
theorem schema_complete (s : Struct) (hs : s.WellFormed) (hraw : s.Unpatched)
    (hdefault : s.Undefaulted) (config : Config) (doc : Json)
    (hdoc : s.documentWith config = .ok doc) (w : Json) (hw : exact.admits doc w = true) :
    ∃ e, s.encode w = .ok e := by
  obtain ⟨f, hnode, rfl⟩ := Struct.documentWith_eq_ok.mp hdoc
  exact Struct.accepts_lower hs hraw hdefault hnode w
    ((admits_document (Struct.distinct_lower hnode)).mp hw)

/-- A point with a label that may be missing. -/
def labelledPoint : Struct :=
  .strict (.object [("at", .tuple [.float, .float]),
    ("label", .option (.union [.string, .int]))])

theorem schema_complete_labelledPoint : labelledPoint.WellFormed ∧ labelledPoint.Unpatched ∧
    labelledPoint.Undefaulted ∧ ∃ doc, labelledPoint.documentWith {} = .ok doc ∧
      exact.admits doc (.object [("at", .array [.int 1, .int 2])]) = true ∧
      ∃ e, labelledPoint.encode (.object [("at", .array [.int 1, .int 2])]) = .ok e := by
  have hs : labelledPoint.WellFormed := by
    simp [labelledPoint, Struct.object, Table.ofList, Table.insert, Struct.WellFormed,
      Struct.WellFormedFields, Struct.WellFormedItems, Struct.strict, Struct.withUnknownKeys,
      Struct.tuple, Struct.union, Struct.float, Struct.int, Struct.string, Struct.option,
      Struct.wrapper, Struct.leaf, Leaf.InRange, Metadata.WellFormed, Table.Distinct]
  have hraw : labelledPoint.Unpatched := by
    simp [labelledPoint, Struct.object, Table.ofList, Table.insert, Struct.unpatched_mk, Shape.parts,
      Table.find?, Struct.strict, Struct.withUnknownKeys, Struct.tuple, Struct.union, Struct.float,
      Struct.int, Struct.string, Struct.option, Struct.wrapper, Struct.leaf]
  have hdefault : labelledPoint.Undefaulted := by
    simp [labelledPoint, Struct.object, Table.ofList, Table.insert, Struct.undefaulted_mk,
      Shape.parts, Struct.strict, Struct.withUnknownKeys, Struct.tuple, Struct.union, Struct.float,
      Struct.int, Struct.string, Struct.option, Struct.wrapper, Struct.leaf]
  obtain ⟨doc, hdoc, hw⟩ : ∃ doc, labelledPoint.documentWith {} = .ok doc ∧
      exact.admits doc (.object [("at", .array [.int 1, .int 2])]) = true :=
    ⟨_, rfl, by rfl⟩
  exact ⟨hs, hraw, hdefault, doc, hdoc, hw,
    schema_complete labelledPoint hs hraw hdefault {} doc hdoc _ hw⟩

end ShapeSchema
