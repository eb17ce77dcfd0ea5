import ShapeSchema.Proofs.Load.RoundTrip

/-!
# Ids and their texts

Any two strings make an id, but only a text with something on both sides of its first colon is read
as one. Between the ids that are read and the texts they are read from, writing and reading are
inverse; so annotations that were loaded are written under different keys.
-/

namespace ShapeSchema

namespace MetadataId

theorem toList_text (id : MetadataId) :
    id.text.toList = id.space.toList ++ ':' :: id.name.toList := by
  simp [text]

/-- The text that an id is read from is the one it is written as. -/
theorem text_of_ofText? {t : String} {id : MetadataId} (h : ofText? t = some id) :
    id.text = t := by
  rw [ofText?] at h
  split at h
  · rename_i space name hsplit
    split at h
    · cases h
    · obtain rfl := Option.some.inj h
      obtain ⟨-, htext⟩ := splitColon_eq_some hsplit
      refine String.toList_injective ?_
      rw [toList_text, String.toList_ofList, String.toList_ofList, htext]
  · cases h

/-- Reading is the inverse of writing, on the valid ids and on no others. -/
theorem ofText?_eq_some_iff {t : String} {id : MetadataId} :
    ofText? t = some id ↔ id.text = t ∧ id.Valid := by
  constructor
  · exact fun h => ⟨text_of_ofText? h, valid_of_ofText? h⟩
  · rintro ⟨rfl, hvalid⟩
    exact ofText?_text hvalid

theorem ofText?_text_iff (space name : String) :
    ofText? (mk space name).text = some ⟨space, name⟩ ↔ (mk space name).Valid := by
  rw [ofText?_eq_some_iff, and_iff_right rfl]

/-- Ids that were read are the same if their texts are, and only then. -/
theorem ofText?_inj {t t' : String} {id id' : MetadataId} (h : ofText? t = some id)
    (h' : ofText? t' = some id') : id = id' ↔ t = t' := by
  constructor
  · rintro rfl
    rw [← text_of_ofText? h, ← text_of_ofText? h']
  · rintro rfl
    rw [h] at h'
    exact Option.some.inj h'

/-! ## The first colon -/

theorem idxOf_colon {space : List Char} (h : ':' ∉ space) (name : List Char) :
    (space ++ ':' :: name).idxOf ':' = space.length := by
  rw [List.idxOf_append_of_notMem h, List.idxOf_cons_self, Nat.add_zero]

theorem splitColon_isSome_iff {cs : List Char} : (splitColon cs).isSome ↔ ':' ∈ cs := by
  constructor
  · intro h
    obtain ⟨⟨space, name⟩, hsplit⟩ := Option.isSome_iff_exists.mp h
    obtain ⟨-, rfl⟩ := splitColon_eq_some hsplit
    simp
  · intro h
    obtain ⟨space, name, rfl, hspace⟩ := List.eq_append_cons_of_mem h
    rw [splitColon_append hspace]
    rfl

/-- A text is read as an id if it has a colon, and the first one stands neither at its front nor at
its end. -/
theorem ofText?_isSome_iff (t : String) :
    (ofText? t).isSome ↔ ':' ∈ t.toList ∧ t.toList.idxOf ':' ≠ 0 ∧
      t.toList.idxOf ':' + 1 ≠ t.toList.length := by
  rw [ofText?, ← splitColon_isSome_iff]
  cases hsplit : splitColon t.toList with
  | none => simp
  | some parts =>
    obtain ⟨space, name⟩ := parts
    obtain ⟨hspace, htext⟩ := splitColon_eq_some hsplit
    rw [htext, idxOf_colon hspace]
    have hlength : (space ++ ':' :: name).length = space.length + 1 + name.length := by
      simp only [List.length_append, List.length_cons]
      omega
    rw [hlength]
    show (if space = [] ∨ name = [] then none else some _).isSome ↔ _
    by_cases hempty : space = [] ∨ name = []
    · rw [if_pos hempty]
      rcases hempty with rfl | rfl <;> simp
    · obtain ⟨hleft, hright⟩ := not_or.mp hempty
      rw [if_neg hempty]
      simpa using ⟨hleft, hright⟩

end MetadataId

/-! ## Keys of annotations -/

/-- Annotations that are written at all are written under the texts of their ids. -/
theorem Metadata.writtenAnnotations_of_written {m : Metadata} {fields entries : List (String × Json)}
    (h : m.written = .object fields) (hmem : ("annotations", Json.object entries) ∈ fields) :
    m.writtenAnnotations = some (.object entries) := by
  rw [written_eq] at h
  obtain rfl := Json.object.inj h
  have hname : ∀ {key : String} {o : Option Json} {v : Json},
      ("annotations", v) ∈ presentUnder key o → key = "annotations" ∧ o = some v := by
    intro key o v hv
    cases o with
    | none => cases hv
    | some w =>
      obtain ⟨rfl, rfl⟩ := Prod.mk.inj (List.mem_singleton.mp hv)
      exact ⟨rfl, rfl⟩
  rcases List.mem_append.mp hmem with hmem | hmem
  · exact absurd (hname hmem).1 (by decide)
  · rcases List.mem_append.mp hmem with hmem | hmem
    · exact absurd (hname hmem).1 (by decide)
    · rw [List.append_nil] at hmem
      exact (hname hmem).2

/-- No two annotations that lose nothing are written under the same key. -/
theorem Metadata.distinct_writtenAnnotations {m : Metadata} (hm : m.WellFormed) (hkeeps : m.Keeps)
    {entries : List (String × Json)} (h : m.writtenAnnotations = some (.object entries)) :
    Table.keys entries = m.annotations.map (fun e => e.1.text) ∧ Table.Distinct entries := by
  refine ⟨?_, (Json.wellFormed_object.mp (wellFormed_writtenAnnotations hm hkeeps _ h)).1⟩
  rw [writtenAnnotations] at h
  split at h
  · cases h
  · obtain rfl := Json.object.inj (Option.some.inj h)
    rw [Table.keys, List.map_map]
    rfl

/-- **Ids and texts.** A text that is read as an id is the text of that id, which has a namespace
without a colon and a name; and a text is read if it has something on both sides of its first colon.
The ids that come back from their text are those with a namespace without a colon and with a name.
So ids that were read are the same just if their texts are, and at no node of a loaded struct are
two annotations written under the same key. -/
theorem metadata_ids_and_texts :
    (∀ (t : String) (id : MetadataId), MetadataId.ofText? t = some id →
      id.text = t ∧ id.space ≠ "" ∧ ':' ∉ id.space.toList ∧ id.name ≠ "") ∧
    (∀ t : String, (MetadataId.ofText? t).isSome ↔ ':' ∈ t.toList ∧ t.toList.idxOf ':' ≠ 0 ∧
      t.toList.idxOf ':' + 1 ≠ t.toList.length) ∧
    (∀ space name : String,
      MetadataId.ofText? (MetadataId.mk space name).text = some ⟨space, name⟩ ↔
        space ≠ "" ∧ ':' ∉ space.toList ∧ name ≠ "") ∧
    (∀ (t t' : String) (id id' : MetadataId), MetadataId.ofText? t = some id →
      MetadataId.ofText? t' = some id' → (id = id' ↔ t = t')) ∧
    ∀ (bytes : List UInt8) (s u : Struct), Struct.loadBytes bytes = .ok s → Struct.Within u s →
      ∀ fields entries, u.metadata.written = .object fields →
        ("annotations", Json.object entries) ∈ fields →
          Table.keys entries = u.metadata.annotations.map (fun e => e.1.text) ∧
            Table.Distinct entries := by
  refine ⟨fun t id h => MetadataId.ofText?_eq_some_iff.mp h, MetadataId.ofText?_isSome_iff,
    MetadataId.ofText?_text_iff, fun t t' id id' h h' => MetadataId.ofText?_inj h h',
    fun bytes s u hload hu fields entries hfields hmem => ?_⟩
  obtain ⟨hwell, hs⟩ := Struct.storable_of_loadBytes hload
  have hwritten := Metadata.writtenAnnotations_of_written hfields hmem
  exact Metadata.distinct_writtenAnnotations (hwell.within hu).metadata (hs.1 u hu).2 hwritten

/-! ### Two annotations in one namespace -/

/-- An integer with two annotations; the name of the second one has a colon. -/
def annotatedInt : Struct :=
  (Struct.int.annotate ⟨"ui", "label"⟩ (.string "Size")).annotate ⟨"ui", "on:click"⟩ (.bool true)

theorem load_annotatedInt :
    Struct.loadBytes (Source.bytesOf annotatedInt.written.compact) = .ok annotatedInt := by
  have hwell : annotatedInt.WellFormed := by
    refine ⟨trivial, by simp, by decide, ?_⟩
    exact List.forall_mem_cons.mpr ⟨trivial, List.forall_mem_singleton.mpr trivial⟩
  have hlabel : (MetadataId.mk "ui" "label").Valid :=
    MetadataId.valid_of_ofText? (show MetadataId.ofText? "ui:label" = _ by decide)
  have hclick : (MetadataId.mk "ui" "on:click").Valid :=
    MetadataId.valid_of_ofText? (show MetadataId.ofText? "ui:on:click" = _ by decide)
  have hkeeps : ∀ t, Struct.Within t annotatedInt → t.Keeps := by
    refine Struct.forall_within.mpr ⟨⟨?_, nofun, ?_⟩, fun part mem => nomatch mem⟩
    · rintro _ ⟨⟩ x ⟨⟩
    · exact List.forall_mem_cons.mpr ⟨hlabel, List.forall_mem_singleton.mpr hclick⟩
  exact (Struct.load_written_iff hwell (List.forall_mem_nil _)).mpr ⟨hkeeps, by decide⟩

theorem metadata_ids_and_texts_click :
    MetadataId.ofText? "ui:on:click" = some ⟨"ui", "on:click"⟩ ∧
    (MetadataId.mk "ui" "on:click").text = "ui:on:click" ∧
    (MetadataId.ofText? ":click").isSome = false ∧
    MetadataId.ofText? (MetadataId.mk "ui:on" "click").text ≠ some ⟨"ui:on", "click"⟩ ∧
    Struct.loadBytes (Source.bytesOf annotatedInt.written.compact) = .ok annotatedInt ∧
    Table.Distinct [("ui:label", Json.string "Size"), ("ui:on:click", Json.bool true)] := by
  obtain ⟨hread, hsome, hback, -, hkeys⟩ := metadata_ids_and_texts
  have hclick : MetadataId.ofText? "ui:on:click" = some ⟨"ui", "on:click"⟩ := by decide
  refine ⟨hclick, (hread _ _ hclick).1, ?_, ?_, load_annotatedInt, ?_⟩
  · exact Bool.eq_false_iff.mpr fun h => absurd ((hsome ":click").mp h).2.1 (by decide)
  · exact fun h => absurd ((hback _ _).mp h).2.1 (by decide)
  · have hwritten : annotatedInt.metadata.written = .object [("annotations",
        .object [("ui:label", .string "Size"), ("ui:on:click", .bool true)])] := rfl
    exact (hkeys _ annotatedInt annotatedInt load_annotatedInt (.refl _) _ _ hwritten
      List.mem_cons_self).2

end ShapeSchema
