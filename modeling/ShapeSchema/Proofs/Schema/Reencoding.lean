import ShapeSchema.Proofs.Schema.EqualEncoding

/-!
# Encoding again

What a struct emits can be pushed through it once more. Each shape is given back what it emitted
itself: the fields of an object find their values under their names, or null where a null was left
out, and the other entries have their place behind them. Only a union may emit something else the
second time, when a variant further in front accepts what a later one emitted.
-/

namespace ShapeSchema

namespace Struct

/-- No struct within is a union. -/
def UnionFree (s : Struct) : Prop := ∀ t, Within t s → ∀ variants, t.shape ≠ .series .union variants

theorem unionFree_mk {shape : Shape Struct} {m : Metadata} :
    (Struct.mk shape m).UnionFree ↔
      (∀ variants, shape ≠ .series .union variants) ∧ ∀ part ∈ shape.parts, part.UnionFree :=
  forall_within

theorem UnionFree.part {s part : Struct} (h : s.UnionFree) (mem : part ∈ s.shape.parts) :
    part.UnionFree :=
  fun t ht => h t (ht.trans (.of_part mem))

/-! ## Objects read what they emitted -/

section

variable {policy : UnknownKeys} {fields : List (String × Struct)} {entries : Table String Json}
  {ws : List Json}

theorem inputs_emitted (hdistinct : Table.Distinct fields) (hlength : fields.length = ws.length) :
    fields.map (input (emitted fields ws)) = ws := by
  induction fields generalizing ws with
  | nil => exact (List.length_eq_zero_iff.mp hlength.symm).symm
  | cons field rest ih =>
    cases ws with
    | nil => cases hlength
    | cons w ws =>
      obtain ⟨name, s⟩ := field
      obtain ⟨hfresh, hrest⟩ : name ∉ Table.keys rest ∧ Table.Distinct rest :=
        Table.distinct_cons.mp hdistinct
      have hcons : emitted ((name, s) :: rest) (w :: ws) = emits (name, s) w ++ emitted rest ws := rfl
      have hlater : Table.find? name (emitted rest ws) = none :=
        Table.find?_eq_none_iff.mpr fun hmem => hfresh ((keys_emitted rest ws).subset hmem)
      -- A null that is left out is what the field is given when its name is not found.
      have hfirst : input (emits (name, s) w ++ emitted rest ws) (name, s) = w := by
        rw [input, emits]
        split
        · rename_i hnull
          obtain ⟨hnull, -⟩ := Bool.and_eq_true_iff.mp hnull
          rw [List.nil_append, hlater, Option.getD_none]
          cases w <;> first | rfl | cases hnull
        · simp [Table.find?]
      have hother : ∀ field ∈ rest, input (emits (name, s) w ++ emitted rest ws) field =
          input (emitted rest ws) field := by
        intro field hfield
        have hne : name ≠ field.1 := fun h => hfresh (h ▸ Table.mem_keys_of_mem hfield)
        rw [input, input, emits]
        split
        · rfl
        · simp [Table.find?, hne]
      rw [hcons, List.map_cons, hfirst, List.map_congr_left hother, ih hrest (by simpa using hlength)]

/-- Given what the object emitted, each field is given what it was encoded as. -/
theorem inputs_output (hdistinct : Table.Distinct fields) (hlength : fields.length = ws.length) :
    fields.map (input (output policy fields entries ws)) = ws := by
  have hsame : ∀ field ∈ fields, input (output policy fields entries ws) field =
      input (emitted fields ws) field := by
    intro field hfield
    rw [output]
    split
    · -- What is kept besides the fields overwrites none of them.
      have hfresh : field.1 ∉ Table.keys (excess fields entries) := by
        intro hkey
        obtain ⟨entry, hentry, hname⟩ := List.mem_map.mp hkey
        exact (mem_excess.mp hentry).2 (hname ▸ Table.mem_keys_of_mem hfield)
      rw [input, Table.find?_merge_of_not_mem hfresh, input]
    · rfl
  rw [List.map_congr_left hsame, inputs_emitted hdistinct hlength]

theorem excess_emitted (fields : List (String × Struct)) (ws : List Json) :
    excess fields (emitted fields ws) = [] := by
  refine List.filter_eq_nil_iff.mpr fun entry hentry => ?_
  have hkey : entry.1 ∈ Table.keys fields :=
    (keys_emitted fields ws).subset (Table.mem_keys_of_mem hentry)
  simp [Table.contains_iff.mpr hkey]

/-- What is kept besides the fields stands behind what they emitted. -/
theorem merge_excess (fields : List (String × Struct)) (entries : Table String Json)
    (ws : List Json) :
    Table.merge (emitted fields ws) (excess fields entries) =
      emitted fields ws ++ Table.ofList (excess fields entries) := by
  have hdistinct : Table.Distinct (Table.ofList (excess fields entries)) :=
    Table.distinct_merge List.nodup_nil
  have hfresh : ∀ key ∈ Table.keys (Table.ofList (excess fields entries)),
      key ∉ Table.keys (emitted fields ws) := by
    intro key hkey hemitted
    obtain ⟨entry, hentry, rfl⟩ := List.mem_map.mp hkey
    rcases Table.mem_merge hentry with hentry | hentry
    · cases hentry
    · exact (mem_excess.mp hentry).2 ((keys_emitted fields ws).subset hemitted)
  rw [← Table.merge_of_disjoint hdistinct hfresh, Table.merge_ofList]

theorem excess_ofList (fields : List (String × Struct)) (entries : Table String Json) :
    excess fields (Table.ofList (excess fields entries)) = Table.ofList (excess fields entries) := by
  refine List.filter_eq_self.mpr fun entry hentry => ?_
  rcases Table.mem_merge hentry with hentry | hentry
  · cases hentry
  · exact (List.mem_filter.mp hentry).2

/-- An object that emits the same for its fields emits the same. -/
theorem output_output (policy : UnknownKeys) (fields : List (String × Struct))
    (entries : Table String Json) (ws : List Json) :
    output policy fields (output policy fields entries ws) ws = output policy fields entries ws := by
  by_cases hpolicy : policy = .passthrough
  · have hexcess : excess fields (emitted fields ws ++ Table.ofList (excess fields entries)) =
        Table.ofList (excess fields entries) := by
      rw [excess, List.filter_append]
      exact congrArg₂ (· ++ ·) (excess_emitted fields ws) (excess_ofList fields entries)
    simp only [output, if_pos hpolicy]
    rw [merge_excess fields entries ws, hexcess, Table.merge_ofList, merge_excess fields entries ws]
  · simp only [output, if_neg hpolicy]

/-- A strict object finds nothing besides its fields in what it emitted. -/
theorem excess_output (hpolicy : policy = .strict) :
    excess fields (output policy fields entries ws) = [] := by
  subst hpolicy
  exact excess_emitted fields ws

end

/-! ## Shape by shape -/

/-- What the struct emits, it encodes again, and without unions as it is. -/
def Settles (s : Struct) : Prop :=
  ∀ v w, s.encode v = .ok w → ∃ w', s.encode w = .ok w' ∧ (s.UnionFree → w' = w)

namespace Settles

variable {s : Struct} {m : Metadata}

theorem leaf (l : Leaf) (m : Metadata) : (Struct.mk (.leaf l) m).Settles := by
  intro v w hw
  obtain ⟨hadmits, rfl⟩ := encode_leaf_eq_ok.mp hw
  exact ⟨v, hw, fun _ => rfl⟩

theorem nullish {wr : Wrapper} (hwr : wr = .option ∨ wr = .nullable) (h : s.Settles) :
    (Struct.mk (.wrapper wr s) m).Settles := by
  intro v w hw
  by_cases hnull : w = .null
  · exact ⟨.null, (encode_nullish_eq_ok hwr).mpr (.inl ⟨hnull, rfl⟩), fun _ => hnull.symm⟩
  · rcases (encode_nullish_eq_ok hwr).mp hw with ⟨-, hw⟩ | ⟨-, hw⟩
    · exact absurd hw hnull
    · obtain ⟨w', hw', heq⟩ := h v w hw
      exact ⟨w', (encode_nullish_eq_ok hwr).mpr (.inr ⟨hnull, hw'⟩),
        fun hfree => heq (hfree.part (by simp [shape, Shape.parts]))⟩

theorem array (h : s.Settles) : (Struct.mk (.wrapper .array s) m).Settles := by
  intro v w hw
  obtain ⟨vs, ws, rfl, hws, rfl⟩ := encode_array_eq_ok.mp hw
  have hsettled : ∀ w ∈ ws, ∃ w', s.encode w = .ok w' ∧ (s.UnionFree → w' = w) := by
    intro w hmem
    obtain ⟨v, -, hv⟩ := exists_left_of_mem hws hmem
    exact h v w hv
  obtain ⟨ws', hws'⟩ := exists_forall₂ hsettled
  refine ⟨.array ws', encode_array_eq_ok.mpr ⟨ws, ws', rfl, hws'.imp fun _ _ h => h.1, rfl⟩, ?_⟩
  intro hfree
  have hinner : s.UnionFree := hfree.part (by simp [shape, Shape.parts])
  have hsame : List.Forall₂ Eq ws ws' := hws'.imp fun _ _ h => (h.2 hinner).symm
  rw [List.forall₂_eq_eq_eq] at hsame
  rw [hsame]

theorem dict (h : s.Settles) : (Struct.mk (.wrapper .dict s) m).Settles := by
  intro v w hw
  obtain ⟨entries, out, rfl, hout, rfl⟩ := encode_dict_eq_ok.mp hw
  have hsettled : ∀ o ∈ out, ∃ o' : String × Json, o'.1 = o.1 ∧ s.encode o.2 = .ok o'.2 ∧
      (s.UnionFree → o'.2 = o.2) := by
    intro o hmem
    obtain ⟨entry, -, -, hentry⟩ := exists_left_of_mem hout hmem
    obtain ⟨w', hw', heq⟩ := h entry.2 o.2 hentry
    exact ⟨(o.1, w'), rfl, hw', heq⟩
  obtain ⟨out', hout'⟩ := exists_forall₂ hsettled
  refine ⟨.object out',
    encode_dict_eq_ok.mpr ⟨out, out', rfl, hout'.imp fun _ _ h => ⟨h.1, h.2.1⟩, rfl⟩, ?_⟩
  intro hfree
  have hinner : s.UnionFree := hfree.part (by simp [shape, Shape.parts])
  have hsame : List.Forall₂ Eq out out' :=
    hout'.imp fun _ _ h => Prod.ext h.1.symm (h.2.2 hinner).symm
  rw [List.forall₂_eq_eq_eq] at hsame
  rw [hsame]

theorem tuple {items : List Struct} (h : ∀ s ∈ items, s.Settles) :
    (Struct.mk (.series .tuple items) m).Settles := by
  intro v w hw
  obtain ⟨vs, ws, rfl, hlength, hws, rfl⟩ := encode_tuple_eq_ok.mp hw
  have hitems : List.Forall₂ Eq items items := List.forall₂_eq_eq_eq ▸ rfl
  have hemits : List.Forall₂ (fun s w => s ∈ items ∧ ∃ v, s.encode v = .ok w) items ws :=
    forall₂_of_zip hitems hlength hws fun s hs t v w hst hw => ⟨hst ▸ hs, v, hst ▸ hw⟩
  have hsettled : ∀ p ∈ items.zip ws, ∃ w', p.1.encode p.2 = .ok w' ∧
      (p.1.UnionFree → w' = p.2) := by
    intro p hp
    obtain ⟨hs, v, hv⟩ := (List.forall₂_iff_zip.mp hemits).2 hp
    exact h p.1 hs v p.2 hv
  obtain ⟨ws', hws'⟩ := exists_forall₂ hsettled
  refine ⟨.array ws', encode_tuple_eq_ok.mpr
    ⟨ws, ws', rfl, hemits.length_eq.symm, hws'.imp fun _ _ h => h.1, rfl⟩, ?_⟩
  intro hfree
  have hsame : List.Forall₂ (fun p w' => p.2 = w') (items.zip ws) ws' :=
    forall₂_imp_of_mem hws' fun p hp _ h => (h.2 (hfree.part (List.of_mem_zip hp).1)).symm
  have hmap : (items.zip ws).map Prod.snd = ws' := by
    rw [← List.forall₂_eq_eq_eq, List.forall₂_map_left_iff]
    exact hsame
  rw [← hmap, List.map_snd_zip (Nat.le_of_eq hemits.length_eq.symm)]

/-- What one variant emitted, that variant accepts again, if none further in front does. -/
theorem union {variants : List Struct} (h : ∀ s ∈ variants, s.Settles) :
    (Struct.mk (.series .union variants) m).Settles := by
  intro v w hw
  obtain ⟨s, hs, hv⟩ := encodeUnion_eq_some (encode_union_eq_ok.mp hw)
  obtain ⟨w₁, hw₁, -⟩ := h s hs v w hv
  obtain ⟨w', hw'⟩ := encodeUnion_isSome hs hw₁
  exact ⟨w', encode_union_eq_ok.mpr hw', fun hfree => absurd rfl (hfree _ (.refl _) variants)⟩

theorem object {fields : List (String × Struct)} {policy : UnknownKeys}
    (hdistinct : Table.Distinct fields) (h : ∀ field ∈ fields, field.2.Settles) :
    (Struct.mk (.object fields policy) m).Settles := by
  intro v w hw
  obtain ⟨entries, ws, rfl, hws, -, rfl⟩ := (encode_object_eq_ok hdistinct).mp hw
  have hinputs : fields.map (input (output policy fields entries ws)) = ws :=
    inputs_output hdistinct hws.length_eq
  -- Each field is given back what it emitted, so the hypothesis about it applies.
  have hemits : List.Forall₂ (fun field w => field.2.encode (input entries field) = .ok w) fields
      (fields.map (input (output policy fields entries ws))) := by
    rw [hinputs]
    exact hws
  have hsettled : ∀ field ∈ fields, ∃ w',
      field.2.encode (input (output policy fields entries ws) field) = .ok w' ∧
        (field.2.UnionFree → w' = input (output policy fields entries ws) field) := by
    intro field hfield
    have hfield' := List.forall₂_map_right_iff.mp hemits
    exact h field hfield _ _ ((List.forall₂_same.mp hfield') field hfield)
  obtain ⟨ws', hws'⟩ := exists_forall₂ hsettled
  refine ⟨.object (output policy fields (output policy fields entries ws) ws'),
    (encode_object_eq_ok hdistinct).mpr
      ⟨_, ws', rfl, hws'.imp fun _ _ h => h.1, excess_output, rfl⟩, ?_⟩
  intro hfree
  have hsame : fields.map (input (output policy fields entries ws)) = ws' := by
    rw [← List.forall₂_eq_eq_eq, List.forall₂_map_left_iff]
    exact forall₂_imp_of_mem hws' fun field hfield _ h =>
      (h.2 (hfree.part (List.mem_map_of_mem hfield))).symm
  rw [← hsame, hinputs, output_output]

end Settles

/-! ## All structs -/

theorem settles {s : Struct} (hs : s.WellFormed) : s.Settles := by
  induction s using Struct.induction with
  | leaf l m => exact .leaf l m
  | wrapper w inner m ih =>
    have hinner : inner.Settles := ih hs.1
    cases w with
    | option => exact .nullish (.inl rfl) hinner
    | nullable => exact .nullish (.inr rfl) hinner
    | array => exact .array hinner
    | dict => exact .dict hinner
  | series k items m ih =>
    have hitems : ∀ s ∈ items, s.Settles := fun s hmem => ih s hmem (hs.part hmem)
    cases k with
    | tuple => exact .tuple hitems
    | union => exact .union hitems
  | object fields policy m ih =>
    exact .object hs.1 fun field hfield => ih field hfield (hs.part (List.mem_map_of_mem hfield))

end Struct

/-- **Encoding again is stable.** What a struct emits, it accepts; and if there is no union in it,
then it emits the same once more, the order of the keys included. -/
theorem encode_again (s : Struct) (hs : s.WellFormed) (v w : Json) (hw : s.encode v = .ok w) :
    (∃ w', s.encode w = .ok w') ∧ (s.UnionFree → s.encode w = .ok w) := by
  obtain ⟨w', hw', heq⟩ := Struct.settles hs v w hw
  refine ⟨⟨w', hw'⟩, fun hfree => ?_⟩
  rw [hw', heq hfree]

/-- A parcel with its weight, perhaps a note, a label or none, and whatever else is said of it. -/
def parcel : Struct :=
  (Struct.object [("weight", .float), ("note", .option .string),
    ("label", .nullable .string)]).passthrough

theorem encode_again_parcel : parcel.WellFormed ∧ parcel.UnionFree ∧
    parcel.encode (.object [("colour", .null), ("note", .null), ("weight", .int 3)]) =
      .ok (.object [("weight", .int 3), ("label", .null), ("colour", .null)]) ∧
    parcel.encode (.object [("weight", .int 3), ("label", .null), ("colour", .null)]) =
      .ok (.object [("weight", .int 3), ("label", .null), ("colour", .null)]) := by
  have hs : parcel.WellFormed := by
    simp [parcel, Struct.object, Struct.passthrough, Struct.withUnknownKeys, Table.ofList,
      Table.insert, Struct.WellFormed, Struct.WellFormedFields, Struct.float, Struct.string,
      Struct.option, Struct.nullable, Struct.wrapper, Struct.leaf, Leaf.InRange,
      Metadata.WellFormed, Table.Distinct]
  have hfree : parcel.UnionFree := by
    simp [parcel, Struct.object, Struct.passthrough, Struct.withUnknownKeys, Table.ofList,
      Table.insert, Struct.unionFree_mk, Shape.parts, Struct.float, Struct.string, Struct.option,
      Struct.nullable, Struct.wrapper, Struct.leaf]
  have hw : parcel.encode (.object [("colour", .null), ("note", .null), ("weight", .int 3)]) =
      .ok (.object [("weight", .int 3), ("label", .null), ("colour", .null)]) := by
    rfl
  exact ⟨hs, hfree, hw, (encode_again parcel hs _ _ hw).2 hfree⟩

/-- With a union, what is emitted may change once more: the second variant emits what the first one
accepts and adds to. -/
example :
    let s : Struct := .union [(Struct.object [("a", .nullable .int)]).strict, .object []]
    (s.encode (.object [("b", .int 1)])).toOption = some (.object []) ∧
      (s.encode (.object [])).toOption = some (.object [("a", .null)]) := by
  exact ⟨rfl, rfl⟩

end ShapeSchema
