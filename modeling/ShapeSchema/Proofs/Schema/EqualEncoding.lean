import ShapeSchema.Proofs.Schema.Encoding
import ShapeSchema.Proofs.Struct.Equality

/-!
# Equal structs encode alike

If a struct encodes a value, then an equal struct encodes an equal value, and what they emit is equal.
Order plays no part: neither that of the fields, through which encoding goes one after the other, nor
that of the entries of the value. What counts as equal is left open: any equality of values under which
the order of keys does not matter.
-/

namespace ShapeSchema

/-! ## Leaves -/

theorem Number.toInt64?_eq_of_same {m n : Number} (h : m.same n = true) : m.toInt64? = n.toInt64? := by
  cases m <;> cases n
  case int.int i j =>
    obtain rfl : i = j := beq_iff_eq.mp h
    rfl
  case float.float x y => rfl
  all_goals cases h

theorem Number.numEq_toDouble {m n : Number} (h : m.same n = true) :
    m.toDouble.numEq n.toDouble = true := by
  cases m <;> cases n
  case int.int i j =>
    obtain rfl : i = j := beq_iff_eq.mp h
    exact Double.numEq_refl _
  case float.float x y => exact h
  all_goals cases h

theorem Binary64.numEq_eq_of_same {x y : Binary64} {a b : Double} (hxy : x.same y = true)
    (hab : a.numEq b = true) : x.numEq (.finite a) = y.numEq (.finite b) := by
  cases x <;> cases y
  case finite.finite x y =>
    have hxy' : x.numEq y = true := hxy
    rw [Bool.eq_iff_iff]
    constructor
    · intro h
      exact Double.numEq_trans (Double.numEq_symm hxy') (Double.numEq_trans h hab)
    · intro h
      exact Double.numEq_trans hxy' (Double.numEq_trans h (Double.numEq_symm hab))
  case infinite.infinite => rfl
  case nan.nan => rfl
  all_goals cases hxy

theorem Literal.admits_eq_of_alike {l l' : Literal} (hl : l.same l' = true) {v w : Json}
    (hvw : v.Alike w) : l.admits v = l'.admits w := by
  have hfloat : ∀ x y : Binary64, x.same y = true →
      (Literal.float x).admits v = (Literal.float y).admits w := by
    intro x y hxy
    cases hvw with
    | number hmn => exact Binary64.numEq_eq_of_same hxy (Number.numEq_toDouble hmn)
    | _ => rfl
  rcases Literal.same_iff.mp hl with rfl | ⟨x, y, rfl, rfl, hxy⟩
  · cases l with
    | int i =>
      cases hvw with
      | number hmn => exact congrArg (· == some i) (Number.toInt64?_eq_of_same hmn)
      | _ => rfl
    | float x => exact hfloat x x x.same_refl
    | _ => cases hvw <;> rfl
  · exact hfloat x y hxy

theorem Leaf.admits_eq_of_alike {l l' : Leaf} (hl : l.same l' = true) {v w : Json}
    (hvw : v.Alike w) : l.admits v = l'.admits w := by
  rcases Leaf.same_iff.mp hl with rfl | ⟨x, y, rfl, rfl, hxy⟩
  · cases l with
    | literal value => exact Literal.admits_eq_of_alike (Literal.same_iff.mpr (.inl rfl)) hvw
    | int =>
      cases hvw with
      | number hmn => exact congrArg Option.isSome (Number.toInt64?_eq_of_same hmn)
      | _ => rfl
    | _ => cases hvw <;> rfl
  · exact Literal.admits_eq_of_alike (Literal.same_iff.mpr (.inr ⟨x, y, rfl, rfl, hxy⟩)) hvw

namespace Struct

/-- What the first struct encodes, the second encodes if it is given an equal value, and it emits an
equal one. -/
def Follows (s t : Struct) : Prop :=
  ∀ v w u, v.WellFormed → w.WellFormed → v.Same w → s.encode v = .ok u →
    ∃ u', t.encode w = .ok u' ∧ u.Same u'

/-- So it is under any relation in place of equality. -/
def FollowsUnder (R : Json → Json → Prop) (s t : Struct) : Prop :=
  ∀ v w u, v.WellFormed → w.WellFormed → R v w → s.encode v = .ok u →
    ∃ u', t.encode w = .ok u' ∧ R u u'

section

variable {R : Json → Json → Prop} (hR : Json.KeyBlind R)

include hR

namespace FollowsUnder

variable {s t : Struct} {m m' : Metadata}

theorem leaf {l l' : Leaf} (h : l.same l' = true) :
    FollowsUnder R (.mk (.leaf l) m) (.mk (.leaf l') m') := by
  intro v w u _ _ hvw hu
  obtain ⟨hadmits, rfl⟩ := encode_leaf_eq_ok.mp hu
  rw [Leaf.admits_eq_of_alike h (hR.alike hvw)] at hadmits
  exact ⟨w, encode_leaf_eq_ok.mpr ⟨hadmits, rfl⟩, hvw⟩

theorem nullish {wr : Wrapper} (hwr : wr = .option ∨ wr = .nullable) (h : s.FollowsUnder R t) :
    FollowsUnder R (.mk (.wrapper wr s) m) (.mk (.wrapper wr t) m') := by
  intro v w u hv hw hvw hu
  rcases (encode_nullish_eq_ok hwr).mp hu with ⟨rfl, rfl⟩ | ⟨hnull, hu⟩
  · cases hR.alike hvw
    exact ⟨.null, (encode_nullish_eq_ok hwr).mpr (.inl ⟨rfl, rfl⟩), hvw⟩
  · have hnull' : w ≠ .null := by
      rintro rfl
      cases hR.alike hvw
      exact hnull rfl
    obtain ⟨u', hu', hrel⟩ := h v w u hv hw hvw hu
    exact ⟨u', (encode_nullish_eq_ok hwr).mpr (.inr ⟨hnull', hu'⟩), hrel⟩

theorem array (h : s.FollowsUnder R t) :
    FollowsUnder R (.mk (.wrapper .array s) m) (.mk (.wrapper .array t) m') := by
  intro v w u hv hw hvw hu
  obtain ⟨vs, us, rfl, hus, rfl⟩ := encode_array_eq_ok.mp hu
  obtain ⟨ws, rfl, hvws⟩ := hR.of_array hvw
  have hvs := Json.wellFormed_array.mp hv
  have hws := Json.wellFormed_array.mp hw
  obtain ⟨us', hus', hrel⟩ := exists_following (forall₂_members hvws) hus
    (Q := fun w u' => t.encode w = .ok u') (S := R) (by
      rintro v w u ⟨hvmem, hwmem, hvw⟩ hu
      exact h v w u (hvs v hvmem) (hws w hwmem) hvw hu)
  exact ⟨.array us', encode_array_eq_ok.mpr ⟨ws, us', rfl, hus', rfl⟩, hR.array.mpr hrel⟩

theorem dict (h : s.FollowsUnder R t) :
    FollowsUnder R (.mk (.wrapper .dict s) m) (.mk (.wrapper .dict t) m') := by
  intro v w u hv hw hvw hu
  obtain ⟨entries, out, rfl, hout, rfl⟩ := encode_dict_eq_ok.mp hu
  obtain ⟨entries', rfl, hentries⟩ := hR.of_object hv hw hvw
  obtain ⟨hdistinct, hvs⟩ := Json.wellFormed_object.mp hv
  obtain ⟨hdistinct', hws⟩ := Json.wellFormed_object.mp hw
  obtain ⟨out', hout', hrel⟩ := hentries.exists_following hdistinct' hout
    (Q := fun _ w u' => t.encode w = .ok u') (S := fun _ => R) (by
      intro key v w u hvmem hwmem hvw hu
      exact h v w u (hvs _ hvmem) (hws _ hwmem) hvw hu)
  have hkeys : Table.keys out = Table.keys entries := Table.keys_eq_of_forall₂ hout fun _ _ h => h.1
  have hkeys' : Table.keys out' = Table.keys entries' :=
    Table.keys_eq_of_forall₂ hout' fun _ _ h => h.1
  refine ⟨.object out', encode_dict_eq_ok.mpr ⟨entries', out', rfl, hout', rfl⟩,
    (hR.object ?_ ?_).mpr hrel⟩
  · rwa [Table.Distinct, hkeys]
  · rwa [Table.Distinct, hkeys']

theorem tuple {items items' : List Struct} (h : List.Forall₂ (FollowsUnder R) items items') :
    FollowsUnder R (.mk (.series .tuple items) m) (.mk (.series .tuple items') m') := by
  intro v w u hv hw hvw hu
  obtain ⟨vs, us, rfl, hlength, hus, rfl⟩ := encode_tuple_eq_ok.mp hu
  obtain ⟨ws, rfl, hvws⟩ := hR.of_array hvw
  have hvs := Json.wellFormed_array.mp hv
  have hws := Json.wellFormed_array.mp hw
  obtain ⟨us', hus', hrel⟩ := exists_following (forall₂_zip h (forall₂_members hvws)) hus
    (Q := fun p u' => Struct.encode p.1 p.2 = .ok u') (S := R) (by
      rintro ⟨s, v⟩ ⟨t, w⟩ u ⟨hst, hvmem, hwmem, hvw⟩ hu
      exact hst v w u (hvs v hvmem) (hws w hwmem) hvw hu)
  have hlength' : ws.length = items'.length := by
    rw [← hvws.length_eq, hlength, h.length_eq]
  exact ⟨.array us', encode_tuple_eq_ok.mpr ⟨ws, us', rfl, hlength', hus', rfl⟩,
    hR.array.mpr hrel⟩

/-- The variant that accepts a value is the one at the same place: no variant in front of it accepts
an equal value either. -/
theorem encodeUnion {variants variants' : List Struct}
    (h : List.Forall₂ (fun s t => s.FollowsUnder R t ∧ t.FollowsUnder R s) variants variants')
    {v w u : Json} (hv : v.WellFormed) (hw : w.WellFormed) (hvw : R v w)
    (hu : Struct.encodeUnion variants v = some u) :
    ∃ u', Struct.encodeUnion variants' w = some u' ∧ R u u' := by
  induction h with
  | nil => cases hu
  | @cons s t _ _ hst _ ih =>
    rw [encodeUnion_cons] at hu ⊢
    cases hs : s.encode v with
    | ok u₀ =>
      rw [hs] at hu
      obtain rfl : u₀ = u := Option.some.inj hu
      obtain ⟨u', ht, hrel⟩ := hst.1 v w u₀ hv hw hvw hs
      exact ⟨u', by rw [ht], hrel⟩
    | error e =>
      rw [hs] at hu
      cases ht : t.encode w with
      | ok u' =>
        obtain ⟨_, hs', -⟩ := hst.2 w v u' hw hv (hR.symm hv hw hvw) ht
        rw [hs] at hs'
        cases hs'
      | error e' => exact ih hu

theorem union {variants variants' : List Struct}
    (h : List.Forall₂ (fun s t => s.FollowsUnder R t ∧ t.FollowsUnder R s) variants variants') :
    FollowsUnder R (.mk (.series .union variants) m) (.mk (.series .union variants') m') := by
  intro v w u hv hw hvw hu
  obtain ⟨u', hu', hrel⟩ := encodeUnion hR h hv hw hvw (encode_union_eq_ok.mp hu)
  exact ⟨u', encode_union_eq_ok.mpr hu', hrel⟩

end FollowsUnder

end

/-! ## Objects -/

section

variable {R : String × Struct → Json → Prop} {fields : List (String × Struct)} {us : List Json}

theorem keys_emitted (fields : List (String × Struct)) (us : List Json) :
    (Table.keys (emitted fields us)).Sublist (Table.keys fields) := by
  induction fields generalizing us with
  | nil => exact .slnil
  | cons field rest ih =>
    cases us with
    | nil => exact List.nil_sublist _
    | cons u us =>
      have hcons : emitted (field :: rest) (u :: us) = emits field u ++ emitted rest us := rfl
      rw [hcons, Table.keys, List.map_append, emits, Table.keys_cons]
      split
      · exact (ih us).cons _
      · exact (ih us).cons_cons _

/-- What is emitted under a name: nothing if there is no such field, or else what the field is encoded
as, but no null for an option. -/
theorem find?_emitted (hdistinct : Table.Distinct fields) (h : List.Forall₂ R fields us) (k : String) :
    (k ∉ Table.keys fields ∧ Table.find? k (emitted fields us) = none) ∨
      ∃ s u, (k, s) ∈ fields ∧ R (k, s) u ∧
        Table.find? k (emitted fields us) = if u.isNull && s.isOption then none else some u := by
  induction h with
  | nil => exact .inl ⟨by simp, rfl⟩
  | @cons field u fields us hfield _ ih =>
    obtain ⟨name, s⟩ := field
    obtain ⟨hfresh, hrest⟩ := Table.distinct_cons.mp hdistinct
    have hcons : emitted ((name, s) :: fields) (u :: us) = emits (name, s) u ++ emitted fields us :=
      rfl
    by_cases hk : name = k
    · subst hk
      have hlater : Table.find? name (emitted fields us) = none :=
        Table.find?_eq_none_iff.mpr fun hmem => hfresh ((keys_emitted fields us).subset hmem)
      refine .inr ⟨s, u, by simp, hfield, ?_⟩
      rw [hcons, emits]
      split
      · exact hlater
      · simp [Table.find?]
    · have hfirst : Table.find? k (emits (name, s) u ++ emitted fields us) =
          Table.find? k (emitted fields us) := by
        rw [emits]
        split
        · rfl
        · simp [Table.find?, hk]
      rw [hcons, hfirst]
      rcases ih hrest with ⟨hnone, hfind⟩ | ⟨t, u', hmem, hR, hfind⟩
      · exact .inl ⟨by simp [hnone, Ne.symm hk], hfind⟩
      · exact .inr ⟨t, u', List.mem_cons_of_mem _ hmem, hR, hfind⟩

theorem distinct_output {policy : UnknownKeys} (hfields : Table.Distinct fields)
    (entries : Table String Json) (us : List Json) :
    Table.Distinct (output policy fields entries us) := by
  have hemitted : Table.Distinct (emitted fields us) := List.Nodup.sublist (keys_emitted _ _) hfields
  rw [output]
  split
  · exact Table.distinct_merge hemitted
  · exact hemitted

end

section

variable {R : Json → Json → Prop} {fields fields' : List (String × Struct)}
  {entries entries' : Table String Json} {us us' : List Json}

theorem wellFormed_input (h : (Json.object entries).WellFormed) (field : String × Struct) :
    (input entries field).WellFormed := by
  rw [input]
  cases hv : Table.find? field.1 entries with
  | none => trivial
  | some v => exact (Json.wellFormed_object.mp h).2 _ (Table.mem_of_find? hv)

/-- Fields of one name are given related values by objects that agree. -/
theorem related_input (hR : Json.KeyBlind R) (h : Table.Agree (fun _ => R) entries entries')
    {field field' : String × Struct} (hname : field'.1 = field.1) :
    R (input entries field) (input entries' field') := by
  rw [input, input, hname]
  rcases h.either field.1 with ⟨hnone, hnone'⟩ | ⟨v, w, hv, hw, hvw⟩
  · rw [hnone, hnone']
    exact hR.null
  · rw [hv, hw]
    exact hvw

theorem agree_excess {Q : String → Struct → Struct → Prop} (hfields : Table.Agree Q fields fields')
    (hentries : Table.Agree (fun _ => R) entries entries') :
    Table.Agree (fun _ => R) (excess fields entries) (excess fields' entries') :=
  hentries.filter (p := fun k => !Table.contains k fields)
    (q := fun k => !Table.contains k fields') fun k => by rw [hfields.contains_eq]

/-- What is emitted for fields that follow each other. -/
theorem agree_emitted (hR : Json.KeyBlind R) (hdistinct : Table.Distinct fields)
    (hdistinct' : Table.Distinct fields')
    (hfields : Table.Agree (fun _ s t => s.FollowsUnder R t ∧ s.isOption = t.isOption) fields fields')
    (hinput : ∀ k s t, (input entries (k, s)).WellFormed ∧ (input entries' (k, t)).WellFormed ∧
      R (input entries (k, s)) (input entries' (k, t)))
    (hus : List.Forall₂ (fun field u => field.2.encode (input entries field) = .ok u) fields us)
    (hus' : List.Forall₂ (fun field u => field.2.encode (input entries' field) = .ok u) fields' us') :
    Table.Agree (fun _ => R) (emitted fields us) (emitted fields' us') := by
  intro k
  rcases find?_emitted hdistinct hus k with ⟨hfresh, hfind⟩ | ⟨s, u, hs, hu, hfind⟩
  · rcases find?_emitted hdistinct' hus' k with ⟨-, hfind'⟩ | ⟨t, u', ht, -, -⟩
    · rw [hfind, hfind']
      exact .none
    · exact absurd (hfields.mem_keys_iff.mpr (Table.mem_keys_of_mem ht)) hfresh
  · obtain ⟨t₀, ht₀, hfollows, hoption⟩ := hfields.find?_eq_some (hdistinct.find?_eq hs)
    rcases find?_emitted hdistinct' hus' k with ⟨hfresh, -⟩ | ⟨t, u', ht, hu', hfind'⟩
    · exact absurd (Table.mem_keys_of_mem (Table.mem_of_find? ht₀)) hfresh
    · rw [hdistinct'.find?_eq ht] at ht₀
      obtain rfl : t = t₀ := Option.some.inj ht₀
      obtain ⟨hv, hw, hvw⟩ := hinput k s t
      obtain ⟨u₀, hu₀, hrel⟩ := hfollows _ _ u hv hw hvw hu
      rw [hu'] at hu₀
      obtain rfl : u' = u₀ := Except.ok.inj hu₀
      rw [hfind, hfind', (hR.alike hrel).isNull_eq, hoption]
      split
      · exact .none
      · exact .some hrel

end

theorem FollowsUnder.object {R : Json → Json → Prop} (hR : Json.KeyBlind R)
    {fields fields' : List (String × Struct)} {policy : UnknownKeys} {m m' : Metadata}
    (hdistinct : Table.Distinct fields) (hdistinct' : Table.Distinct fields')
    (hfields : Table.Agree (fun _ s t => s.FollowsUnder R t ∧ s.isOption = t.isOption)
      fields fields') :
    FollowsUnder R (.mk (.object fields policy) m) (.mk (.object fields' policy) m') := by
  intro v w u hv hw hvw hu
  obtain ⟨entries, us, rfl, hus, hstrict, rfl⟩ := (encode_object_eq_ok hdistinct).mp hu
  obtain ⟨entries', rfl, hentries⟩ := hR.of_object hv hw hvw
  have hentriesDistinct := (Json.wellFormed_object.mp hv).1
  have hentriesDistinct' := (Json.wellFormed_object.mp hw).1
  have hinput : ∀ k s t, (input entries (k, s)).WellFormed ∧ (input entries' (k, t)).WellFormed ∧
      R (input entries (k, s)) (input entries' (k, t)) := fun k s t =>
    ⟨wellFormed_input hv _, wellFormed_input hw _, related_input hR hentries rfl⟩
  -- The fields of the second struct are encoded in another order, but all of them are.
  have hencode : ∀ field ∈ fields', ∃ u, field.2.encode (input entries' field) = .ok u := by
    rintro ⟨k, t⟩ ht
    obtain ⟨s, hs, hfollows, -⟩ := hfields.flip.find?_eq_some (hdistinct'.find?_eq ht)
    obtain ⟨u, -, hu⟩ := exists_right_of_mem hus (Table.mem_of_find? hs)
    obtain ⟨hv, hw, hvw⟩ := hinput k s t
    obtain ⟨u', hu', -⟩ := hfollows _ _ u hv hw hvw hu
    exact ⟨u', hu'⟩
  obtain ⟨us', hus'⟩ := exists_forall₂ hencode
  have hemitted := agree_emitted hR hdistinct hdistinct' hfields hinput hus hus'
  have hexcess := agree_excess hfields hentries
  have hexcessDistinct : Table.Distinct (excess fields entries) := hentriesDistinct.filter _
  have hexcessDistinct' : Table.Distinct (excess fields' entries') := hentriesDistinct'.filter _
  have hstrict' : policy = .strict → excess fields' entries' = [] := by
    intro hpolicy
    rw [hstrict hpolicy] at hexcess
    exact hexcess.eq_nil
  refine ⟨_, (encode_object_eq_ok hdistinct').mpr ⟨entries', us', rfl, hus', hstrict', rfl⟩,
    (hR.object (distinct_output hdistinct _ _) (distinct_output hdistinct' _ _)).mpr ?_⟩
  rw [output, output]
  split
  · exact hemitted.merge hexcess hexcessDistinct hexcessDistinct' fun _ _ _ _ h => h
  · exact hemitted

/-! ## All structs -/

theorem isOption_eq_of_same {s t : Struct} (h : s.Same t) : s.isOption = t.isOption := by
  obtain ⟨shape, m⟩ := s
  obtain ⟨shape', m'⟩ := t
  cases shape with
  | wrapper w inner =>
    obtain ⟨inner', m', heq, -⟩ := same_wrapper_iff.mp h
    rw [heq]
    cases w <;> rfl
  | _ =>
    cases shape' with
    | wrapper w' inner' => cases h
    | _ => rfl

/-- Equal structs follow each other under every equality to which the order of keys does not matter. -/
theorem followsUnder_of_same {R : Json → Json → Prop} (hR : Json.KeyBlind R) {s t : Struct}
    (hs : s.WellFormed) (ht : t.WellFormed) (h : s.Same t) :
    s.FollowsUnder R t ∧ t.FollowsUnder R s := by
  induction s using Struct.induction generalizing t with
  | leaf l m =>
    obtain ⟨l', m', rfl, hl, -⟩ := same_leaf_iff.mp h
    exact ⟨.leaf hR hl, .leaf hR (Leaf.same_symm hl)⟩
  | wrapper w inner m ih =>
    obtain ⟨inner', m', rfl, hinner, -⟩ := same_wrapper_iff.mp h
    obtain ⟨hfollows, hfollows'⟩ := ih hs.1 ht.1 hinner
    cases w with
    | option => exact ⟨.nullish hR (.inl rfl) hfollows, .nullish hR (.inl rfl) hfollows'⟩
    | nullable => exact ⟨.nullish hR (.inr rfl) hfollows, .nullish hR (.inr rfl) hfollows'⟩
    | array => exact ⟨.array hR hfollows, .array hR hfollows'⟩
    | dict => exact ⟨.dict hR hfollows, .dict hR hfollows'⟩
  | series k items m ih =>
    obtain ⟨items', m', rfl, hitems, -⟩ := same_series_iff.mp h
    have hsItems := wellFormedItems_iff.mp hs.1
    have htItems := wellFormedItems_iff.mp ht.1
    have hfollows : List.Forall₂ (fun s t => s.FollowsUnder R t ∧ t.FollowsUnder R s) items items' := by
      refine (forall₂_members hitems).imp ?_
      rintro s t ⟨hs, ht, hst⟩
      exact ih s hs (hsItems s hs) (htItems t ht) hst
    cases k with
    | tuple =>
      exact ⟨.tuple hR (hfollows.imp fun _ _ h => h.1),
        .tuple hR (hfollows.imp fun _ _ h => h.2).flip⟩
    | union => exact ⟨.union hR hfollows, .union hR (hfollows.imp fun _ _ h => h.symm).flip⟩
  | object fields policy m ih =>
    obtain ⟨fields', m', rfl, hfields, -⟩ := (same_object_iff hs ht).mp h
    have hsFields := wellFormedFields_iff.mp hs.2.1
    have htFields := wellFormedFields_iff.mp ht.2.1
    have hfollows : Table.Agree
        (fun _ s t => (s.FollowsUnder R t ∧ t.FollowsUnder R s) ∧ s.isOption = t.isOption)
        fields fields' := by
      refine hfields.imp fun name s t hs ht hst => ⟨?_, isOption_eq_of_same hst⟩
      have hmem := Table.mem_of_find? hs
      exact ih _ hmem (hsFields _ hmem) (htFields _ (Table.mem_of_find? ht)) hst
    exact ⟨.object hR hs.1 ht.1 (hfollows.imp fun _ _ _ _ _ h => ⟨h.1.1, h.2⟩),
      .object hR ht.1 hs.1 (hfollows.flip.imp fun _ _ _ _ _ h => ⟨h.1.2, h.2.symm⟩)⟩

theorem follows_of_same {s t : Struct} (hs : s.WellFormed) (ht : t.WellFormed) (h : s.Same t) :
    s.Follows t ∧ t.Follows s :=
  followsUnder_of_same Json.keyBlind_same hs ht h

end Struct

end ShapeSchema
