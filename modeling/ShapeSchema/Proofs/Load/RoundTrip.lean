import ShapeSchema.Proofs.Load.FloatReaders
import ShapeSchema.Proofs.Load.Struct
import ShapeSchema.Schema.Document

/-!
# Writing and loading

The storable structs are those that can be loaded from what they are written as, and no others are
ever loaded: so writing what was loaded and loading it again gives the same struct and the same text.
For this the floating point numbers in a text must be read as those that were printed.
-/

namespace ShapeSchema

/-! ## Written forms are well-formed -/

theorem Json.wellFormed_presentUnder {key : String} {o : Option Json} :
    (∀ entry ∈ Metadata.presentUnder key o, entry.2.WellFormed) ↔ ∀ v, o = some v → v.WellFormed := by
  cases o <;> simp [Metadata.presentUnder]

theorem Json.wellFormed_pair {key key' : String} {v v' : Json} (hne : key ≠ key') (hv : v.WellFormed)
    (hv' : v'.WellFormed) : (Json.object [(key, v), (key', v')]).WellFormed := by
  refine wellFormed_object.mpr ⟨?_, ?_⟩
  · show [key, key'].Nodup
    simp [hne]
  · simp [hv, hv']

theorem Json.wellFormed_single {key : String} {v : Json} (hv : v.WellFormed) :
    (Json.object [(key, v)]).WellFormed := by
  refine wellFormed_object.mpr ⟨?_, ?_⟩
  · show [key].Nodup
    simp
  · simp [hv]

theorem Deprecation.wellFormed_written (d : Deprecation) : d.written.WellFormed := by
  cases d with
  | flagged => trivial
  | withMessage message => exact Json.wellFormed_single (v := .string message) trivial

theorem Literal.wellFormed_written {value : Literal} (h : value.InRange) :
    value.written.WellFormed := by
  cases value with
  | int i => exact Json.wellFormed_single (v := .int i) (.inl h)
  | float x => cases x <;> exact Json.wellFormed_single (v := Json.float _) trivial
  | string s => exact Json.wellFormed_single (v := .string s) trivial
  | bool b => exact Json.wellFormed_single (v := .bool b) trivial
  | _ => trivial

theorem Kind.wellFormed_written (kind : Kind) {content : Json} (h : content.WellFormed) :
    (kind.written (some content)).WellFormed :=
  Json.wellFormed_pair (by decide) (v := .string kind.text) trivial h

/-- Ids that their texts determine are told apart by them. -/
theorem MetadataId.text_injective {id id' : MetadataId} (h : id.Valid) (h' : id'.Valid)
    (htext : id.text = id'.text) : id = id' := by
  have hid := ofText?_text h
  rw [htext, ofText?_text h'] at hid
  exact (Option.some.inj hid).symm

theorem Metadata.wellFormed_writtenAnnotations {m : Metadata} (hm : m.WellFormed)
    (hkeeps : m.Keeps) : ∀ v, m.writtenAnnotations = some v → v.WellFormed := by
  intro v hv
  rw [writtenAnnotations] at hv
  split at hv
  · cases hv
  · obtain rfl := Option.some.inj hv
    have hids : m.annotations.Pairwise fun e e' => e.1 ≠ e'.1 := List.pairwise_map.mp hm.2.1
    refine Json.wellFormed_object.mpr ⟨List.pairwise_map.mpr (List.pairwise_map.mpr ?_), ?_⟩
    · -- Valid ids are told apart by their texts, so the keys are distinct as the ids are.
      refine hids.imp_of_mem fun he he' hne htext => hne ?_
      exact MetadataId.text_injective (hkeeps.2 _ he) (hkeeps.2 _ he') htext
    · intro entry hentry
      obtain ⟨e, he, rfl⟩ := List.mem_map.mp hentry
      exact hm.2.2 e he

theorem Metadata.wellFormed_written {m : Metadata} (hm : m.WellFormed) (hkeeps : m.Keeps) :
    m.written.WellFormed := by
  have hdeprecation : ∀ v, m.deprecation.map Deprecation.written = some v → v.WellFormed := by
    intro v hv
    obtain ⟨d, -, rfl⟩ := Option.map_eq_some_iff.mp hv
    exact d.wellFormed_written
  have hannotations := wellFormed_writtenAnnotations hm hkeeps
  rw [written_eq]
  refine Json.wellFormed_object.mpr ⟨?_, ?_⟩
  · generalize m.deprecation.map Deprecation.written = deprecation
    generalize m.writtenAnnotations = annotations
    cases deprecation <;> cases m.default <;> cases annotations <;>
      simp [Table.Distinct, Table.keys, presentUnder]
  · rw [List.append_nil, List.forall_mem_append, List.forall_mem_append,
      Json.wellFormed_presentUnder, Json.wellFormed_presentUnder, Json.wellFormed_presentUnder]
    exact ⟨hdeprecation, hm.1, hannotations⟩

theorem Struct.wellFormed_withMetadata {shape : Json} {m : Metadata} (hshape : shape.WellFormed)
    (hm : m.WellFormed) (hkeeps : m.Keeps) : (withMetadata shape m).WellFormed := by
  rw [withMetadata]
  cases m.isEmpty with
  | true => exact Json.wellFormed_single hshape
  | false =>
    exact Json.wellFormed_pair (by decide) hshape (Metadata.wellFormed_written hm hkeeps)

/-- What a struct that loses nothing is written as has each key once. -/
theorem Struct.wellFormed_written {s : Struct} (hs : s.WellFormed)
    (hkeeps : ∀ t, Within t s → t.Keeps) : s.written.WellFormed := by
  induction s using Struct.induction with
  | leaf l m =>
    refine wellFormed_withMetadata ?_ hs.metadata (hkeeps _ (.refl _)).2
    cases l with
    | literal value =>
      exact Kind.wellFormed_written .literal (Literal.wellFormed_written hs.1)
    | _ => exact Json.wellFormed_single (v := .string _) trivial
  | wrapper w inner m ih =>
    refine wellFormed_withMetadata (Kind.wellFormed_written _ (ih hs.1 ?_)) hs.metadata
      (hkeeps _ (.refl _)).2
    exact fun t ht => hkeeps t (ht.trans (.of_part (by simp [Struct.shape, Shape.parts])))
  | series k items m ih =>
    refine wellFormed_withMetadata (Kind.wellFormed_written _ ?_) hs.metadata (hkeeps _ (.refl _)).2
    refine Json.wellFormed_array.mpr ?_
    rw [writtenItems_eq, List.forall_mem_map]
    intro part hpart
    refine ih part hpart (hs.part hpart) fun t ht => hkeeps t (ht.trans (.of_part hpart))
  | object fields policy m ih =>
    refine wellFormed_withMetadata (Kind.wellFormed_written _ ?_) hs.metadata (hkeeps _ (.refl _)).2
    refine Json.wellFormed_pair (by decide) ?_ trivial
    rw [writtenFields_eq]
    refine Json.wellFormed_object.mpr ⟨?_, ?_⟩
    · show ((fields.map fun field => (field.1, field.2.written)).map Prod.fst).Nodup
      rw [List.map_map]
      exact hs.1
    · rw [List.forall_mem_map]
      intro field hfield
      have hpart : field.2 ∈ (Struct.mk (.object fields policy) m).shape.parts :=
        List.mem_map_of_mem hfield
      exact ih field hfield (hs.part hpart) fun t ht => hkeeps t (ht.trans (.of_part hpart))

/-! ## The round trip -/

section

variable {reader : FloatReader} {bytes : List UInt8} {s : Struct}

/-- A storable struct is loaded from its text as it was, if the floating point numbers in the text are
restored. -/
theorem Struct.loadBy_written (hwell : s.WellFormed) (hs : s.Storable)
    (hfloats : ∀ x ∈ s.written.floats, reader.Restores x) :
    Struct.loadBy reader s.written.compact = .ok s := by
  have htree := Json.ofBytesBy_compact (wellFormed_written hwell hs.1) hfloats
  show (Source.ofBytesBy reader (Source.bytesOf s.written.compact)).readStruct .document = _
  rw [htree]
  exact source_read (fits_iff_storable.mpr ⟨hwell, hs⟩) (Nat.lt_succ_self 127)

/-- Whatever is loaded is storable, however its numbers are read. -/
theorem Struct.storable_of_loadBytesBy (h : Struct.loadBytesBy reader bytes = .ok s) :
    s.WellFormed ∧ s.Storable :=
  fits_iff_storable.mp (Source.readStruct_fits _ (Source.inRange_ofBytesBy reader bytes) h)

theorem Struct.storable_of_loadBytes (h : Struct.loadBytes bytes = .ok s) :
    s.WellFormed ∧ s.Storable :=
  storable_of_loadBytesBy h

/-- **The storable structs are exactly those that come back**, of all that can be made with floating
point numbers that are restored. -/
theorem Struct.load_written_iff (hwell : s.WellFormed)
    (hfloats : ∀ x ∈ s.written.floats, FloatReader.scaled.Restores x) :
    Struct.load s.written.compact = .ok s ↔ s.Storable :=
  ⟨fun h => (storable_of_loadBytes h).2, fun hs => loadBy_written hwell hs hfloats⟩

end

/-- **The round trip.** If reading numbers is inverse to printing them, a storable struct is loaded
from its text as it was, and so has the same document. What is loaded from any text, given as bytes,
is storable: written and loaded again it is the same, and written once more it has the same text. -/
theorem written_round_trip (reader : FloatReader) (hreader : reader.InvertsPrinter) :
    (∀ s : Struct, s.WellFormed → s.Storable → Struct.loadBy reader s.written.compact = .ok s ∧
      ∀ config, (Struct.loadBy reader s.written.compact).map (Struct.documentWith config) =
        .ok (s.documentWith config)) ∧
    ∀ (bytes : List UInt8) (s : Struct), Struct.loadBytesBy reader bytes = .ok s →
      s.WellFormed ∧ s.Storable ∧ Struct.loadBy reader s.written.compact = .ok s ∧
        (Struct.loadBy reader s.written.compact).map (fun t => t.written.compact) =
          .ok s.written.compact := by
  refine ⟨fun s hwell hs => ?_, fun bytes s h => ?_⟩
  · have hload := Struct.loadBy_written hwell hs fun x _ => hreader x
    refine ⟨hload, fun config => ?_⟩
    rw [hload]
    rfl
  · obtain ⟨hwell, hs⟩ := Struct.storable_of_loadBytesBy h
    have hload := Struct.loadBy_written hwell hs fun x _ => hreader x
    refine ⟨hwell, hs, hload, ?_⟩
    rw [hload]
    rfl

/-- A reading with a calibration constant, a default, and an annotation. -/
def thermometer : Struct :=
  .object [("celsius", Struct.float.withDefault (.int 20)),
    ("offset", Struct.literal (.float (.finite (.ofInt 3)))),
    ("note", (Struct.option .string).annotate ⟨"ui", "label"⟩ (.string "Note"))]

theorem written_round_trip_thermometer : thermometer.WellFormed ∧ thermometer.Storable ∧
    FloatReader.nearest.InvertsPrinter ∧
    Struct.loadBy .nearest thermometer.written.compact = .ok thermometer ∧
    Struct.load thermometer.written.compact = .ok thermometer ∧
    (Struct.loadBy .nearest thermometer.written.compact).map (fun t => t.written.compact) =
      .ok thermometer.written.compact := by
  have hwell : thermometer.WellFormed := by
    simp [thermometer, Struct.object, Table.ofList, Table.insert, Struct.WellFormed,
      Struct.WellFormedFields, Struct.withDefault, Struct.annotate, Struct.mapMetadata, Struct.float,
      Struct.literal, Struct.string, Struct.option, Struct.wrapper, Struct.leaf, Leaf.InRange,
      Literal.InRange, Metadata.WellFormed, Table.Distinct, Json.WellFormed, Json.int, Number.InRange,
      IsInt64]
  have hnode : ∀ shape m, (∀ t, Struct.Within t (.mk shape m) → t.Keeps) ↔
      ((∀ l, shape = .leaf l → l.IsFinite) ∧ m.Keeps) ∧
        ∀ part ∈ shape.parts, ∀ t, Struct.Within t part → t.Keeps :=
    fun _ _ => Struct.forall_within
  have hkeeps : ∀ t, Struct.Within t thermometer → t.Keeps := by
    simp [thermometer, Struct.object, Table.ofList, Table.insert, hnode, Shape.parts,
      Struct.withDefault, Struct.annotate, Struct.mapMetadata, Struct.float, Struct.literal,
      Struct.string, Struct.option, Struct.wrapper, Struct.leaf, Metadata.Keeps, Leaf.IsFinite,
      MetadataId.Valid, Json.int]
  have hs : thermometer.Storable := ⟨hkeeps, by decide⟩
  have hreader := FloatReader.nearest_invertsPrinter
  obtain ⟨hwritten, hloaded⟩ := written_round_trip .nearest hreader
  have hload := (hwritten thermometer hwell hs).1
  have hfloats : thermometer.written.floats = [.ofInt 3] := rfl
  have hthree : FloatReader.scaled.Restores (.ofInt 3) :=
    FloatReader.scaled_restores (by decide +kernel) (by decide +kernel) (by decide +kernel)
  refine ⟨hwell, hs, hreader, hload, ?_, (hloaded _ thermometer hload).2.2.2⟩
  refine Struct.loadBy_written hwell hs ?_
  rw [hfloats]
  exact List.forall_mem_singleton.mpr hthree

end ShapeSchema
