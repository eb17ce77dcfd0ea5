import ShapeSchema.Proofs.Json.Equality
import ShapeSchema.Proofs.Struct.Parts
import ShapeSchema.Struct.Equality

/-!
# Equality of structs is an equivalence

Equality of each layer of a struct, taken apart: literals differ at most in the sign of a zero, fields
and annotations agree as tables. On well-formed structs it is an equivalence.
-/

namespace ShapeSchema

/-! ## Leaves -/

/-- Equal literals are the same, or two floating point numbers that are equal. -/
theorem Literal.same_iff {l l' : Literal} : l.same l' = true ↔
    l = l' ∨ ∃ x y, l = .float x ∧ l' = .float y ∧ x.same y = true := by
  cases l <;> cases l'
  case float.float x y =>
    constructor
    · intro h
      exact .inr ⟨x, y, rfl, rfl, h⟩
    · rintro (h | ⟨x', y', hx, hy, h⟩)
      · obtain rfl := Literal.float.inj h
        exact x.same_refl
      · obtain rfl := Literal.float.inj hx
        obtain rfl := Literal.float.inj hy
        exact h
  all_goals simp [Literal.same]

/-- So are equal leaves. -/
theorem Leaf.same_iff {l l' : Leaf} : l.same l' = true ↔
    l = l' ∨ ∃ x y, l = .literal (.float x) ∧ l' = .literal (.float y) ∧ x.same y = true := by
  cases l <;> cases l'
  case literal.literal v w =>
    show v.same w = true ↔ _
    rw [Literal.same_iff]
    simp
  all_goals simp [Leaf.same, Leaf.kind]

theorem Leaf.same_refl (l : Leaf) : l.same l = true := Leaf.same_iff.mpr (.inl rfl)

theorem Leaf.same_symm {l l' : Leaf} (h : l.same l' = true) : l'.same l = true := by
  rcases Leaf.same_iff.mp h with rfl | ⟨x, y, rfl, rfl, hxy⟩
  · exact l.same_refl
  · exact Leaf.same_iff.mpr (.inr ⟨y, x, rfl, rfl, Binary64.same_symm hxy⟩)

theorem Leaf.same_trans {l l' l'' : Leaf} (h : l.same l' = true) (h' : l'.same l'' = true) :
    l.same l'' = true := by
  rcases Leaf.same_iff.mp h with rfl | ⟨x, y, rfl, rfl, hxy⟩
  · exact h'
  · rcases Leaf.same_iff.mp h' with rfl | ⟨y', z, hy, rfl, hyz⟩
    · exact h
    · obtain rfl : y = y' := by simpa using hy
      exact Leaf.same_iff.mpr (.inr ⟨x, z, rfl, rfl, Binary64.same_trans hxy hyz⟩)

/-! ## Metadata -/

namespace Metadata

variable {m n k : Metadata}

/-- Equal metadata has the same mark, equal defaults, and annotations that agree. -/
theorem same_iff (hm : m.WellFormed) (hn : n.WellFormed) : m.same n = true ↔
    m.deprecation = n.deprecation ∧ Option.Rel Json.Same m.default n.default ∧
      Table.Agree (fun _ => Json.Same) m.annotations n.annotations := by
  rw [Table.agree_iff hm.2.1 hn.2.1, same, Bool.and_eq_true, Bool.and_eq_true, Bool.and_eq_true,
    decide_eq_true_iff, beq_iff_eq, and_assoc, and_assoc]
  refine and_congr_right fun _ => and_congr ?_ (and_congr_right fun _ => ?_)
  · cases m.default <;> cases n.default <;> simp
  · rw [List.all_eq_true]
    refine forall₂_congr fun entry _ => ?_
    dsimp only
    cases Table.find? entry.1 n.annotations <;> simp

theorem same_refl (hm : m.WellFormed) : m.same m = true := by
  refine (same_iff hm hm).mpr ⟨rfl, ?_, Table.agree_refl hm.2.1 fun entry hentry => ?_⟩
  · cases hdefault : m.default with
    | none => exact .none
    | some v => exact .some (Json.same_refl (hm.1 v hdefault))
  · exact Json.same_refl (hm.2.2 entry hentry)

theorem same_symm (hm : m.WellFormed) (hn : n.WellFormed) (h : m.same n = true) :
    n.same m = true := by
  obtain ⟨hmark, hdefault, hannotations⟩ := (same_iff hm hn).mp h
  refine (same_iff hn hm).mpr ⟨hmark.symm, ?_, hannotations.flip.imp fun id w v hw hv hvw => ?_⟩
  · rcases either_of_rel hdefault with ⟨hv, hw⟩ | ⟨v, w, hv, hw, hvw⟩
    · rw [hv, hw]
      exact .none
    · rw [hv, hw]
      exact .some (Json.same_symm (hm.1 v hv) (hn.1 w hw) hvw)
  · exact Json.same_symm (hm.2.2 _ (Table.mem_of_find? hv)) (hn.2.2 _ (Table.mem_of_find? hw)) hvw

theorem same_trans (hm : m.WellFormed) (hn : n.WellFormed) (hk : k.WellFormed)
    (hmn : m.same n = true) (hnk : n.same k = true) : m.same k = true := by
  obtain ⟨hmark, hdefault, hannotations⟩ := (same_iff hm hn).mp hmn
  obtain ⟨hmark', hdefault', hannotations'⟩ := (same_iff hn hk).mp hnk
  refine (same_iff hm hk).mpr ⟨hmark.trans hmark', ?_,
    hannotations.trans hannotations' fun id u v w hu hv hw huv hvw => ?_⟩
  · rcases either_of_rel hdefault with ⟨hu, hv⟩ | ⟨u, v, hu, hv, huv⟩
    · rw [hv] at hdefault'
      rw [hu]
      exact hdefault'
    · rcases either_of_rel hdefault' with ⟨hv', -⟩ | ⟨v', w, hv', hw, hvw⟩
      · rw [hv] at hv'
        cases hv'
      · rw [hv] at hv'
        obtain rfl : v = v' := Option.some.inj hv'
        rw [hu, hw]
        exact .some (Json.same_trans (hm.1 u hu) (hn.1 v hv) (hk.1 w hw) huv hvw)
  · exact Json.same_trans (hm.2.2 _ (Table.mem_of_find? hu)) (hn.2.2 _ (Table.mem_of_find? hv))
      (hk.2.2 _ (Table.mem_of_find? hw)) huv hvw

end Metadata

/-! ## Structs -/

namespace Struct

/-- The two structs are equal. -/
abbrev Same (s t : Struct) : Prop := s.same t = true

theorem sameItems_iff {ss ts : List Struct} : sameItems ss ts = true ↔ List.Forall₂ Same ss ts := by
  induction ss generalizing ts with
  | nil => cases ts <;> simp [sameItems]
  | cons s ss ih => cases ts <;> simp [sameItems, ih]

theorem sameFields_iff {fields : List (String × Struct)} {table : Table String Struct} :
    sameFields fields table = true ↔
      ∀ field ∈ fields, ∃ t, Table.find? field.1 table = some t ∧ field.2.Same t := by
  induction fields with
  | nil => simp [sameFields]
  | cons field rest ih =>
    rw [sameFields, Bool.and_eq_true, ih, List.forall_mem_cons]
    cases Table.find? field.1 table <;> simp

section

variable {m : Metadata} {t : Struct}

/-- Equality case by case: the shapes are of one kind, and the metadata is equal. -/
theorem same_iff {shape shape' : Shape Struct} {m' : Metadata} :
    (Struct.mk shape m).Same (.mk shape' m') ↔
      (match shape, shape' with
        | .leaf l, .leaf l' => l.same l' = true
        | .wrapper w s, .wrapper w' s' => w = w' ∧ s.Same s'
        | .series k ss, .series k' ss' => k = k' ∧ List.Forall₂ Same ss ss'
        | .object fs u, .object fs' u' =>
          (fs.length = fs'.length ∧ sameFields fs fs' = true) ∧ u = u'
        | _, _ => False) ∧ m.same m' = true := by
  cases shape <;> cases shape' <;> simp [Same, same, ← sameItems_iff]

theorem same_leaf_iff {l : Leaf} : (Struct.mk (.leaf l) m).Same t ↔
    ∃ l' m', t = .mk (.leaf l') m' ∧ l.same l' = true ∧ m.same m' = true := by
  obtain ⟨shape', m'⟩ := t
  cases shape' <;> simp [same_iff]

theorem same_wrapper_iff {w : Wrapper} {inner : Struct} : (Struct.mk (.wrapper w inner) m).Same t ↔
    ∃ inner' m', t = .mk (.wrapper w inner') m' ∧ inner.Same inner' ∧ m.same m' = true := by
  obtain ⟨shape', m'⟩ := t
  cases shape' <;> simp [same_iff, @eq_comm _ w, and_assoc]

theorem same_series_iff {k : Series} {items : List Struct} : (Struct.mk (.series k items) m).Same t ↔
    ∃ items' m', t = .mk (.series k items') m' ∧ List.Forall₂ Same items items' ∧
      m.same m' = true := by
  obtain ⟨shape', m'⟩ := t
  cases shape' <;> simp [same_iff, @eq_comm _ k, and_assoc]

theorem same_object_iff {fields : List (String × Struct)} {policy : UnknownKeys}
    (hs : (Struct.mk (.object fields policy) m).WellFormed) (ht : t.WellFormed) :
    (Struct.mk (.object fields policy) m).Same t ↔
      ∃ fields' m', t = .mk (.object fields' policy) m' ∧
        Table.Agree (fun _ => Same) fields fields' ∧ m.same m' = true := by
  obtain ⟨shape', m'⟩ := t
  cases shape' with
  | object fields' policy' =>
    have hfields : Table.Agree (fun _ => Same) fields fields' ↔
        fields.length = fields'.length ∧ sameFields fields fields' = true := by
      rw [Table.agree_iff hs.1 ht.1, sameFields_iff]
    simp [same_iff, hfields, @eq_comm _ policy, and_assoc, and_left_comm]
  | _ => simp [same_iff]

end

theorem same_refl {s : Struct} (hs : s.WellFormed) : s.Same s := by
  induction s using Struct.induction with
  | leaf l m => exact same_leaf_iff.mpr ⟨l, m, rfl, l.same_refl, Metadata.same_refl hs.2⟩
  | wrapper w inner m ih =>
    exact same_wrapper_iff.mpr ⟨inner, m, rfl, ih hs.1, Metadata.same_refl hs.2⟩
  | series k items m ih =>
    have hitems := wellFormedItems_iff.mp hs.1
    refine same_series_iff.mpr ⟨items, m, rfl, List.forall₂_same.mpr fun t ht => ?_,
      Metadata.same_refl hs.2⟩
    exact ih t ht (hitems t ht)
  | object fields policy m ih =>
    have hfields := wellFormedFields_iff.mp hs.2.1
    refine (same_object_iff hs hs).mpr ⟨fields, m, rfl, Table.agree_refl hs.1 fun field hfield => ?_,
      Metadata.same_refl hs.2.2⟩
    exact ih field hfield (hfields field hfield)

theorem same_symm {s t : Struct} (hs : s.WellFormed) (ht : t.WellFormed) (h : s.Same t) :
    t.Same s := by
  induction s using Struct.induction generalizing t with
  | leaf l m =>
    obtain ⟨l', m', rfl, hl, hm⟩ := same_leaf_iff.mp h
    exact same_leaf_iff.mpr ⟨l, m, rfl, Leaf.same_symm hl, Metadata.same_symm hs.2 ht.2 hm⟩
  | wrapper w inner m ih =>
    obtain ⟨inner', m', rfl, hinner, hm⟩ := same_wrapper_iff.mp h
    exact same_wrapper_iff.mpr
      ⟨inner, m, rfl, ih hs.1 ht.1 hinner, Metadata.same_symm hs.2 ht.2 hm⟩
  | series k items m ih =>
    obtain ⟨items', m', rfl, hitems, hm⟩ := same_series_iff.mp h
    have hsItems := wellFormedItems_iff.mp hs.1
    have htItems := wellFormedItems_iff.mp ht.1
    refine same_series_iff.mpr ⟨items, m, rfl, ((forall₂_members hitems).imp ?_).flip,
      Metadata.same_symm hs.2 ht.2 hm⟩
    rintro item item' ⟨hitem, hitem', hsame⟩
    exact ih item hitem (hsItems item hitem) (htItems item' hitem') hsame
  | object fields policy m ih =>
    obtain ⟨fields', m', rfl, hfields, hm⟩ := (same_object_iff hs ht).mp h
    have hsFields := wellFormedFields_iff.mp hs.2.1
    have htFields := wellFormedFields_iff.mp ht.2.1
    refine (same_object_iff ht hs).mpr ⟨fields, m, rfl,
      hfields.flip.imp fun name t' t ht' ht hsame => ?_, Metadata.same_symm hs.2.2 ht.2.2 hm⟩
    have hmem := Table.mem_of_find? ht
    exact ih _ hmem (hsFields _ hmem) (htFields _ (Table.mem_of_find? ht')) hsame

theorem same_trans {r s t : Struct} (hr : r.WellFormed) (hs : s.WellFormed) (ht : t.WellFormed)
    (hrs : r.Same s) (hst : s.Same t) : r.Same t := by
  induction r using Struct.induction generalizing s t with
  | leaf l m =>
    obtain ⟨l', m', rfl, hl, hm⟩ := same_leaf_iff.mp hrs
    obtain ⟨l'', m'', rfl, hl', hm'⟩ := same_leaf_iff.mp hst
    exact same_leaf_iff.mpr ⟨l'', m'', rfl, Leaf.same_trans hl hl',
      Metadata.same_trans hr.2 hs.2 ht.2 hm hm'⟩
  | wrapper w inner m ih =>
    obtain ⟨inner', m', rfl, hinner, hm⟩ := same_wrapper_iff.mp hrs
    obtain ⟨inner'', m'', rfl, hinner', hm'⟩ := same_wrapper_iff.mp hst
    exact same_wrapper_iff.mpr ⟨inner'', m'', rfl, ih hr.1 hs.1 ht.1 hinner hinner',
      Metadata.same_trans hr.2 hs.2 ht.2 hm hm'⟩
  | series k items m ih =>
    obtain ⟨items', m', rfl, hitems, hm⟩ := same_series_iff.mp hrs
    obtain ⟨items'', m'', rfl, hitems', hm'⟩ := same_series_iff.mp hst
    have hrItems := wellFormedItems_iff.mp hr.1
    have hsItems := wellFormedItems_iff.mp hs.1
    have htItems := wellFormedItems_iff.mp ht.1
    refine same_series_iff.mpr ⟨items'', m'', rfl,
      forall₂_trans (forall₂_members hitems) (forall₂_members hitems') ?_,
      Metadata.same_trans hr.2 hs.2 ht.2 hm hm'⟩
    rintro a b c ⟨ha, hb, hab⟩ ⟨-, hc, hbc⟩
    exact ih a ha (hrItems a ha) (hsItems b hb) (htItems c hc) hab hbc
  | object fields policy m ih =>
    obtain ⟨fields', m', rfl, hfields, hm⟩ := (same_object_iff hr hs).mp hrs
    obtain ⟨fields'', m'', rfl, hfields', hm'⟩ := (same_object_iff hs ht).mp hst
    have hrFields := wellFormedFields_iff.mp hr.2.1
    have hsFields := wellFormedFields_iff.mp hs.2.1
    have htFields := wellFormedFields_iff.mp ht.2.1
    refine (same_object_iff hr ht).mpr ⟨fields'', m'', rfl,
      hfields.trans hfields' fun name a b c ha hb hc hab hbc => ?_,
      Metadata.same_trans hr.2.2 hs.2.2 ht.2.2 hm hm'⟩
    have hmem := Table.mem_of_find? ha
    exact ih _ hmem (hrFields _ hmem) (hsFields _ (Table.mem_of_find? hb))
      (htFields _ (Table.mem_of_find? hc)) hab hbc

/-- Neither the order of the fields nor that of the annotations matters. -/
theorem same_of_perm {fields fields' : List (String × Struct)} {policy : UnknownKeys} {m : Metadata}
    {annotations : Table MetadataId Json} (hs : (Struct.mk (.object fields policy) m).WellFormed)
    (hfields : fields.Perm fields') (hannotations : m.annotations.Perm annotations) :
    (Struct.mk (.object fields policy) m).Same
      (.mk (.object fields' policy) { m with annotations := annotations }) := by
  obtain ⟨hdistinct, hwell, hdefault, hids, hvalues⟩ := hs
  have hm : ({ m with annotations := annotations } : Metadata).WellFormed :=
    ⟨hdefault, (hannotations.map Prod.fst).nodup_iff.mp hids,
      fun entry hentry => hvalues entry (hannotations.mem_iff.mpr hentry)⟩
  have ht : (Struct.mk (.object fields' policy) { m with annotations := annotations }).WellFormed :=
    ⟨(hfields.map Prod.fst).nodup_iff.mp hdistinct, wellFormedFields_iff.mpr fun field hfield =>
      wellFormedFields_iff.mp hwell field (hfields.mem_iff.mpr hfield), hm⟩
  refine (same_object_iff ⟨hdistinct, hwell, hdefault, hids, hvalues⟩ ht).mpr
    ⟨fields', _, rfl, Table.agree_of_perm hfields hdistinct fun field hfield => ?_, ?_⟩
  · exact same_refl (wellFormedFields_iff.mp hwell field hfield)
  · refine (Metadata.same_iff ⟨hdefault, hids, hvalues⟩ hm).mpr ⟨rfl, ?_,
      Table.agree_of_perm hannotations hids fun entry hentry => Json.same_refl (hvalues entry hentry)⟩
    cases hv : m.default with
    | none => exact .none
    | some v => exact .some (Json.same_refl (hdefault v hv))

end Struct

end ShapeSchema
