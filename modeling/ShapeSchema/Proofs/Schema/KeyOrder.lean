import ShapeSchema.Proofs.Json.KeyOrder
import ShapeSchema.Proofs.Schema.EqualEncoding

/-!
# Encoding and the order of keys

The order of the keys of a value decides neither whether the value is encoded nor, up to the order of
keys, as what. A struct that takes no keys over from the value emits the keys of each object in the
order in which it declares them, and so the same for every order of the keys of the value.
-/

namespace ShapeSchema

/-! ## Structs that declare the keys they emit -/

/-- What is no unknown leaf, no dict and no object that keeps unknown keys. -/
def Shape.DeclaresKeys {α : Type} : Shape α → Prop
  | .leaf .unknown => False
  | .wrapper .dict _ => False
  | .object _ .passthrough => False
  | _ => True

theorem Literal.depth_of_admits {l : Literal} {v : Json} (h : l.admits v = true) : v.depth = 0 := by
  cases v with
  | array => cases l <;> cases h
  | object => cases l <;> cases h
  | _ => rfl

/-- Only the unknown leaf admits arrays and objects. -/
theorem Leaf.depth_of_admits {l : Leaf} {v : Json}
    (hl : (Shape.leaf l : Shape Struct).DeclaresKeys) (h : l.admits v = true) : v.depth = 0 := by
  cases l with
  | unknown => exact hl.elim
  | literal l => exact Literal.depth_of_admits h
  | _ => cases v <;> first | rfl | cases h

namespace Struct

/-- No unknown leaf, no dict and no object that keeps unknown keys stands anywhere in the struct. -/
def DeclaresKeys (s : Struct) : Prop := ∀ t, Within t s → t.shape.DeclaresKeys

theorem declaresKeys_mk {shape : Shape Struct} {m : Metadata} :
    DeclaresKeys (.mk shape m) ↔ shape.DeclaresKeys ∧ ∀ part ∈ shape.parts, part.DeclaresKeys :=
  forall_within

theorem DeclaresKeys.shape {s : Struct} (h : s.DeclaresKeys) : s.shape.DeclaresKeys := h s (.refl s)

theorem DeclaresKeys.part {s part : Struct} (h : s.DeclaresKeys) (mem : part ∈ s.shape.parts) :
    part.DeclaresKeys := (forall_within.mp h).2 part mem

theorem DeclaresKeys.field {fields : List (String × Struct)} {policy : UnknownKeys} {m : Metadata}
    (h : DeclaresKeys (.mk (.object fields policy) m)) {field : String × Struct}
    (mem : field ∈ fields) : field.2.DeclaresKeys := h.part (List.mem_map_of_mem mem)

theorem DeclaresKeys.policy_ne {fields : List (String × Struct)} {policy : UnknownKeys}
    {m : Metadata} (h : DeclaresKeys (.mk (.object fields policy) m)) : policy ≠ .passthrough := by
  rintro rfl
  exact h.shape

/-! ## The order of what is emitted -/

/-- What the struct emits for a value, the keys of every object in the order in which the object
struct that emits it declares its fields. -/
inductive EmitsInOrder : Struct → Json → Json → Prop
  | leaf {l : Leaf} {m : Metadata} {v : Json} (scalar : v.depth = 0) :
    EmitsInOrder (.mk (.leaf l) m) v v
  | null {w : Wrapper} {inner : Struct} {m : Metadata} (nullish : w = .option ∨ w = .nullable) :
    EmitsInOrder (.mk (.wrapper w inner) m) .null .null
  | inside {w : Wrapper} {inner : Struct} {m : Metadata} {v u : Json}
    (nullish : w = .option ∨ w = .nullable) (present : v ≠ .null) (value : EmitsInOrder inner v u) :
    EmitsInOrder (.mk (.wrapper w inner) m) v u
  | array {inner : Struct} {m : Metadata} {vs us : List Json} (length : vs.length = us.length)
    (items : ∀ v u, (v, u) ∈ vs.zip us → EmitsInOrder inner v u) :
    EmitsInOrder (.mk (.wrapper .array inner) m) (.array vs) (.array us)
  | tuple {parts : List Struct} {m : Metadata} {vs us : List Json}
    (length : (parts.zip vs).length = us.length)
    (items : ∀ s v u, ((s, v), u) ∈ (parts.zip vs).zip us → EmitsInOrder s v u) :
    EmitsInOrder (.mk (.series .tuple parts) m) (.array vs) (.array us)
  /-- The first variant that accepts the value emits. -/
  | union {before after : List Struct} {s : Struct} {m : Metadata} {v u : Json}
    (refused : ∀ t ∈ before, ∀ w, t.encode v ≠ .ok w) (accepted : EmitsInOrder s v u) :
    EmitsInOrder (.mk (.series .union (before ++ s :: after)) m) v u
  | object {fields : List (String × Struct)} {policy : UnknownKeys} {m : Metadata}
    {entries out : Table String Json} (order : (Table.keys out).Sublist (Table.keys fields))
    (values : ∀ k s u, (k, s) ∈ fields → (k, u) ∈ out → EmitsInOrder s (input entries (k, s)) u) :
    EmitsInOrder (.mk (.object fields policy) m) (.object entries) (.object out)

theorem emitsInOrder_of_encode {s : Struct} (hs : s.WellFormed) (hkeys : s.DeclaresKeys) {v u : Json}
    (hu : s.encode v = .ok u) : s.EmitsInOrder v u := by
  induction s using Struct.induction generalizing v u with
  | leaf l m =>
    obtain ⟨hadmits, rfl⟩ := encode_leaf_eq_ok.mp hu
    exact .leaf (Leaf.depth_of_admits hkeys.shape hadmits)
  | wrapper w inner m ih =>
    have ih := @ih hs.1 (hkeys.part List.mem_cons_self)
    have hnullish : (w = .option ∨ w = .nullable) → EmitsInOrder (.mk (.wrapper w inner) m) v u := by
      intro hw
      rcases (encode_nullish_eq_ok hw).mp hu with ⟨rfl, rfl⟩ | ⟨hnull, hu⟩
      · exact .null hw
      · exact .inside hw hnull (ih hu)
    cases w with
    | option => exact hnullish (.inl rfl)
    | nullable => exact hnullish (.inr rfl)
    | array =>
      obtain ⟨vs, us, rfl, hus, rfl⟩ := encode_array_eq_ok.mp hu
      exact .array hus.length_eq fun v u hmem => ih (List.forall₂_zip hus hmem)
    | dict => exact hkeys.shape.elim
  | series k items m ih =>
    have ih : ∀ s ∈ items, ∀ v u, s.encode v = .ok u → s.EmitsInOrder v u := fun s hmem v u hu =>
      ih s hmem (wellFormedItems_iff.mp hs.1 s hmem) (hkeys.part hmem) hu
    cases k with
    | tuple =>
      obtain ⟨vs, us, rfl, -, hus, rfl⟩ := encode_tuple_eq_ok.mp hu
      refine .tuple hus.length_eq fun s v u hmem => ?_
      have hs : s ∈ items := (List.of_mem_zip (List.of_mem_zip hmem).1).1
      exact ih s hs v u (List.forall₂_zip hus hmem)
    | union =>
      obtain ⟨before, s, after, rfl, hrefused, hs⟩ :=
        encodeUnion_eq_some_iff.mp (encode_union_eq_ok.mp hu)
      exact .union hrefused (ih s (by simp) v u hs)
  | object fields policy m ih =>
    obtain ⟨entries, us, rfl, hus, -, rfl⟩ := (encode_object_eq_ok hs.1).mp hu
    rw [output, if_neg hkeys.policy_ne]
    refine .object (keys_emitted fields us) fun k s u hfield hentry => ?_
    obtain ⟨⟨name, t⟩, hmem, rfl, hencode, -⟩ := of_mem_emitted hus hentry
    obtain rfl : s = t := (Prod.ext_iff.mp (hs.1.eq_of_key hfield hmem rfl)).2
    exact ih _ hfield (wellFormedFields_iff.mp hs.2.1 _ hfield) (hkeys.field hfield) hencode

/-! ## Reordered values -/

/-- Whether a value is encoded does not depend on the order of keys, and up to that order neither does
what is emitted for it. -/
theorem encode_reordered {s : Struct} (hs : s.WellFormed) {v w u : Json} (hv : v.WellFormed)
    (hvw : v.Reordered w) (hu : s.encode v = .ok u) :
    ∃ u', s.encode w = .ok u' ∧ u.Reordered u' :=
  (followsUnder_of_same Json.keyBlind_reordered hs hs (same_refl hs)).1 v w u hv (hvw.wellFormed hv)
    hvw hu

theorem accepts_iff_of_reordered {s : Struct} (hs : s.WellFormed) {v w : Json} (hv : v.WellFormed)
    (hvw : v.Reordered w) : (∃ u, s.encode v = .ok u) ↔ ∃ u, s.encode w = .ok u := by
  constructor
  · rintro ⟨u, hu⟩
    obtain ⟨u', hu', -⟩ := encode_reordered hs hv hvw hu
    exact ⟨u', hu'⟩
  · rintro ⟨u, hu⟩
    obtain ⟨u', hu', -⟩ := encode_reordered hs (hvw.wellFormed hv) (hvw.symm hv) hu
    exact ⟨u', hu'⟩

/-- A struct that takes no keys over emits one and the same for all orders of keys. -/
theorem encode_eq_of_reordered {s : Struct} (hs : s.WellFormed) (hkeys : s.DeclaresKeys)
    {v w u : Json} (hv : v.WellFormed) (hvw : v.Reordered w) (hu : s.encode v = .ok u) :
    s.encode w = .ok u := by
  induction s using Struct.induction generalizing v w u with
  | leaf l m =>
    obtain ⟨hadmits, rfl⟩ := encode_leaf_eq_ok.mp hu
    obtain rfl := hvw.eq_of_depth (Leaf.depth_of_admits hkeys.shape hadmits)
    exact hu
  | wrapper wr inner m ih =>
    have ih := @ih hs.1 (hkeys.part List.mem_cons_self)
    have hnullish : (wr = .option ∨ wr = .nullable) →
        (Struct.mk (.wrapper wr inner) m).encode w = .ok u := by
      intro hwr
      rcases (encode_nullish_eq_ok hwr).mp hu with ⟨rfl, rfl⟩ | ⟨hnull, hu⟩
      · obtain rfl := hvw.eq_of_depth rfl
        exact hu
      · refine (encode_nullish_eq_ok hwr).mpr (.inr ⟨?_, ih hv hvw hu⟩)
        rintro rfl
        cases hvw.alike
        exact hnull rfl
    cases wr with
    | option => exact hnullish (.inl rfl)
    | nullable => exact hnullish (.inr rfl)
    | array =>
      obtain ⟨vs, us, rfl, hus, rfl⟩ := encode_array_eq_ok.mp hu
      obtain ⟨ws, rfl, hvws⟩ := Json.keyBlind_reordered.of_array hvw
      have hvs := Json.wellFormed_array.mp hv
      have hws : List.Forall₂ (fun w u => inner.encode w = .ok u) ws us :=
        forall₂_trans (forall₂_members hvws).flip hus fun w v u ⟨hmem, _, hvw⟩ hu =>
          ih (hvs v hmem) hvw hu
      exact encode_array_eq_ok.mpr ⟨ws, us, rfl, hws, rfl⟩
    | dict => exact hkeys.shape.elim
  | series k items m ih =>
    have ih : ∀ s ∈ items, ∀ {v w u}, v.WellFormed → v.Reordered w → s.encode v = .ok u →
        s.encode w = .ok u := fun s hmem _ _ _ hv hvw hu =>
      ih s hmem (wellFormedItems_iff.mp hs.1 s hmem) (hkeys.part hmem) hv hvw hu
    cases k with
    | tuple =>
      obtain ⟨vs, us, rfl, hlength, hus, rfl⟩ := encode_tuple_eq_ok.mp hu
      obtain ⟨ws, rfl, hvws⟩ := Json.keyBlind_reordered.of_array hvw
      have hvs := Json.wellFormed_array.mp hv
      have hitems : List.Forall₂ (fun s t => s = t ∧ t ∈ items) items items :=
        List.forall₂_same.mpr fun s hs => ⟨rfl, hs⟩
      have hws : List.Forall₂ (fun p u => Struct.encode p.1 p.2 = .ok u) (items.zip ws) us := by
        refine forall₂_trans (forall₂_zip hitems (forall₂_members hvws)).flip hus ?_
        rintro ⟨_, w⟩ ⟨s, v⟩ u ⟨⟨rfl, hs⟩, hmem, -, hvw⟩ hu
        exact ih s hs (hvs v hmem) hvw hu
      have hlength' : ws.length = items.length := by rw [← hlength, hvws.length_eq]
      exact encode_tuple_eq_ok.mpr ⟨ws, us, rfl, hlength', hws, rfl⟩
    | union =>
      obtain ⟨before, s, after, rfl, hrefused, hs'⟩ :=
        encodeUnion_eq_some_iff.mp (encode_union_eq_ok.mp hu)
      refine encode_union_eq_ok.mpr (encodeUnion_eq_some_iff.mpr
        ⟨before, s, after, rfl, fun t ht u hu => ?_, ih s (by simp) hv hvw hs'⟩)
      -- A variant in front that accepts the reordered value accepts the value itself.
      have htWellFormed := wellFormedItems_iff.mp hs.1 t (by simp [ht])
      obtain ⟨u', hu'⟩ := (accepts_iff_of_reordered htWellFormed hv hvw).mpr ⟨u, hu⟩
      exact hrefused t ht u' hu'
  | object fields policy m ih =>
    obtain ⟨entries, us, rfl, hus, hstrict, rfl⟩ := (encode_object_eq_ok hs.1).mp hu
    obtain ⟨entries', rfl, hentries⟩ :=
      Json.keyBlind_reordered.of_object hv (hvw.wellFormed hv) hvw
    have hus' : List.Forall₂ (fun field u => field.2.encode (input entries' field) = .ok u)
        fields us :=
      forall₂_imp_of_mem hus fun field hmem u hu =>
        ih field hmem (wellFormedFields_iff.mp hs.2.1 field hmem) (hkeys.field hmem)
          (wellFormed_input hv field) (related_input Json.keyBlind_reordered hentries rfl) hu
    have hexcess : Table.Agree (fun _ => Json.Reordered) (excess fields entries)
        (excess fields entries') :=
      agree_excess (Q := fun _ => Eq) (Table.agree_refl hs.1 fun _ _ => rfl) hentries
    refine (encode_object_eq_ok hs.1).mpr ⟨entries', us, rfl, hus', fun hpolicy => ?_, ?_⟩
    · rw [hstrict hpolicy] at hexcess
      exact hexcess.eq_nil
    · rw [output, output, if_neg hkeys.policy_ne, if_neg hkeys.policy_ne]

end Struct

/-- A value and the same value with the keys of its objects in another order, at any depth, are both
encoded or both refused, and as the same up to the order of keys. A struct without unknown leaves, dicts
and objects that keep unknown keys emits exactly the same for both, with the keys in the order in which
it declares them. -/
theorem encode_ignores_key_order (s : Struct) (hs : s.WellFormed) (v w : Json) (hv : v.WellFormed)
    (h : v.Reordered w) :
    ((∃ u, s.encode v = .ok u) ↔ ∃ u, s.encode w = .ok u) ∧
      (∀ u u', s.encode v = .ok u → s.encode w = .ok u' → u.Reordered u') ∧
      (s.DeclaresKeys → ∀ u, s.encode v = .ok u → s.encode w = .ok u ∧ s.EmitsInOrder v u) := by
  refine ⟨Struct.accepts_iff_of_reordered hs hv h, fun u u' hu hu' => ?_, fun hkeys u hu => ?_⟩
  · obtain ⟨u₀, hu₀, hrel⟩ := Struct.encode_reordered hs hv h hu
    rw [hu'] at hu₀
    obtain rfl : u' = u₀ := Except.ok.inj hu₀
    exact hrel
  · exact ⟨Struct.encode_eq_of_reordered hs hkeys hv h hu, Struct.emitsInOrder_of_encode hs hkeys hu⟩

/-- Where something is sent, and in how many pieces. -/
def shipment : Struct :=
  .object [("to", (Struct.object [("city", .string), ("zip", .option .string)]).strict),
    ("pieces", .int)]

/-- The keys are given in another order twice, outside and inside. -/
theorem encode_ignores_key_order_shipment :
    shipment.encode (.object [("pieces", .int 2),
        ("to", .object [("zip", .string "1010"), ("city", .string "Vienna")])]) =
      .ok (.object [("to", .object [("city", .string "Vienna"), ("zip", .string "1010")]),
        ("pieces", .int 2)]) ∧
    shipment.encode (.object [("to", .object [("city", .string "Vienna"), ("zip", .string "1010")]),
        ("pieces", .int 2)]) =
      .ok (.object [("to", .object [("city", .string "Vienna"), ("zip", .string "1010")]),
        ("pieces", .int 2)]) := by
  have hs : shipment.WellFormed := by
    simp [shipment, Struct.object, Struct.strict, Struct.withUnknownKeys, Table.ofList, Table.insert,
      Struct.WellFormed, Struct.WellFormedFields, Struct.int, Struct.string, Struct.option,
      Struct.wrapper, Struct.leaf, Leaf.InRange, Metadata.WellFormed, Table.Distinct]
  have hkeys : shipment.DeclaresKeys := by
    simp [shipment, Struct.object, Struct.strict, Struct.withUnknownKeys, Table.ofList, Table.insert,
      Struct.declaresKeys_mk, Shape.DeclaresKeys, Shape.parts, Struct.int, Struct.string,
      Struct.option, Struct.wrapper, Struct.leaf]
  let inside : Json := .object [("zip", .string "1010"), ("city", .string "Vienna")]
  let inside' : Json := .object [("city", .string "Vienna"), ("zip", .string "1010")]
  have hv : Json.WellFormed (.object [("pieces", .int 2), ("to", inside)]) := by
    simp [inside, Json.WellFormed, Json.WellFormedEntries, Json.int, Number.InRange, IsInt64,
      Table.Distinct]
  have hinside : inside.Reordered inside' :=
    .object (.swap ..) rfl (.cons (.refl _) (.cons (.refl _) .nil))
  have h : Json.Reordered (.object [("pieces", .int 2), ("to", inside)])
      (.object [("to", inside'), ("pieces", .int 2)]) :=
    .object (.swap ..) rfl (.cons hinside (.cons (.refl _) .nil))
  have hu : shipment.encode (.object [("pieces", .int 2), ("to", inside)]) =
      .ok (.object [("to", inside'), ("pieces", .int 2)]) := by
    rfl
  exact ⟨hu, ((encode_ignores_key_order shipment hs _ _ hv h).2.2 hkeys _ hu).1⟩

end ShapeSchema
