import ShapeSchema.Proofs.Schema.Completeness
import ShapeSchema.Proofs.Schema.Reencoding

/-!
# Other policies for unknown keys

What becomes of a struct when the policies of some of its objects are changed. A struct that refuses
fewer keys accepts all that it accepted before, though a union in it may now choose an earlier variant.
Where only strict objects are changed and no union stands in between, it emits the same. Schemas tell
apart only whether other keys are kept.
-/

namespace ShapeSchema

namespace UnknownKeys

/-- The policy after the change refuses other keys only if the one before it does. -/
def Relaxes (before after : UnknownKeys) : Prop := after = .strict → before = .strict

/-- If the policy is changed, it was to refuse other keys. -/
def ChangesStrict (before after : UnknownKeys) : Prop := after = before ∨ before = .strict

/-- Both policies are to keep other keys, or neither is. -/
def KeepsAlike (before after : UnknownKeys) : Prop := before = .passthrough ↔ after = .passthrough

theorem ChangesStrict.relaxes {before after : UnknownKeys} (h : ChangesStrict before after) :
    Relaxes before after := by
  rcases h with rfl | hstrict
  · exact id
  · exact fun _ => hstrict

end UnknownKeys

namespace Struct

/-- The second struct is the first with the policies of its objects changed, at any depth, as `R` allows.
-/
inductive Repoliced (R : UnknownKeys → UnknownKeys → Prop) : Struct → Struct → Prop
  | leaf (l : Leaf) (m : Metadata) : Repoliced R (.mk (.leaf l) m) (.mk (.leaf l) m)
  | wrapper {w : Wrapper} {inner inner' : Struct} {m : Metadata} (inside : Repoliced R inner inner') :
    Repoliced R (.mk (.wrapper w inner) m) (.mk (.wrapper w inner') m)
  | series {k : Series} {items items' : List Struct} {m : Metadata}
    (inside : List.Forall₂ (Repoliced R) items items') :
    Repoliced R (.mk (.series k items) m) (.mk (.series k items') m)
  | object {fields fields' : List (String × Struct)} {policy policy' : UnknownKeys} {m : Metadata}
    (names : Table.keys fields' = Table.keys fields)
    (inside : List.Forall₂ (Repoliced R) (fields.map Prod.snd) (fields'.map Prod.snd))
    (changed : R policy policy') :
    Repoliced R (.mk (.object fields policy) m) (.mk (.object fields' policy') m)

namespace Repoliced

variable {R : UnknownKeys → UnknownKeys → Prop} {s s' : Struct}

theorem isOption_eq (h : Repoliced R s s') : s'.isOption = s.isOption := by
  cases h with
  | @wrapper w => cases w <;> rfl
  | _ => rfl

theorem metadata_eq (h : Repoliced R s s') : s'.metadata = s.metadata := by cases h <;> rfl

theorem kind_eq (h : Repoliced R s s') : s'.kind = s.kind := by cases h <;> rfl

theorem fields {fields fields' : List (String × Struct)}
    (hnames : Table.keys fields' = Table.keys fields)
    (hfields : List.Forall₂ (Repoliced R) (fields.map Prod.snd) (fields'.map Prod.snd)) :
    List.Forall₂ (fun field field' => field'.1 = field.1 ∧ Repoliced R field.2 field'.2)
      fields fields' := by
  have hpairs : List.Forall₂ (fun field field' => Repoliced R field.2 field'.2) fields fields' :=
    List.forall₂_map_right_iff.mp (List.forall₂_map_left_iff.mp hfields)
  exact Table.forall₂_of_keys (R := fun _ s s' => Repoliced R s s') hnames
    fun p hp => List.forall₂_zip hpairs hp

end Repoliced

end Struct

/-! ## Encoding -/

/-- If the first outcome is a success, then so is the second, and if `exact` holds, it is the same. -/
def Extends {α : Type} (exact : Prop) (x y : Encoded α) : Prop :=
  ∀ a, x = .ok a → ∃ b, y = .ok b ∧ (exact → b = a)

namespace Extends

variable {α β : Type} {exact : Prop} {x y : Encoded α}

theorem ok {a b : α} (h : exact → b = a) : Extends exact (.ok a) (.ok b) := by
  rintro _ ⟨⟩
  exact ⟨b, rfl, h⟩

theorem refl (x : Encoded α) : Extends exact x x := fun a h => ⟨a, h, fun _ => rfl⟩

theorem fail {reason : EncodeReason} : Extends exact (.fail reason) y := by
  rintro _ ⟨⟩

theorem under (h : Extends exact x y) (step : String) : Extends exact (x.under step) (y.under step) := by
  intro a ha
  obtain ⟨b, hb, heq⟩ := h a (Encoded.under_eq_ok.mp ha)
  exact ⟨b, Encoded.under_eq_ok.mpr hb, heq⟩

theorem bind (h : Extends exact x y) {f g : α → Encoded β}
    (hfg : ∀ a b, (exact → b = a) → Extends exact (f a) (g b)) :
    Extends exact (x >>= f) (y >>= g) := by
  intro c hc
  obtain ⟨a, ha, hc⟩ := bind_eq_ok.mp hc
  obtain ⟨b, rfl, heq⟩ := h a ha
  exact hfg a b heq c hc

end Extends

section

variable {exact : Prop}

theorem extends_encodeAll {f g : Json → Encoded Json} (h : ∀ v, Extends exact (f v) (g v))
    (position : Nat) (vs : List Json) :
    Extends exact (encodeAll f position vs) (encodeAll g position vs) := by
  induction vs generalizing position with
  | nil => exact .refl _
  | cons v rest ih =>
    rw [encodeAll_cons, encodeAll_cons]
    refine ((h v).under _).bind fun w w' hw => (ih _).bind fun ws ws' hws => .ok fun hexact => ?_
    rw [hw hexact, hws hexact]

theorem extends_encodeEntries {f g : Json → Encoded Json} (h : ∀ v, Extends exact (f v) (g v))
    (entries : List (String × Json)) :
    Extends exact (encodeEntries f entries) (encodeEntries g entries) := by
  induction entries with
  | nil => exact .refl _
  | cons entry rest ih =>
    obtain ⟨key, v⟩ := entry
    rw [encodeEntries_cons, encodeEntries_cons]
    refine ((h v).under _).bind fun w w' hw => ih.bind fun out out' hout => .ok fun hexact => ?_
    rw [hw hexact, hout hexact]

namespace Struct

/-- The policy that relaxes another has nothing to do with what that accepts, if it was to refuse. -/
theorem extends_encodeExcess {policy policy' : UnknownKeys} (hrelaxes : policy.Relaxes policy')
    (hexact : exact → policy.ChangesStrict policy') (excess : List (String × Json))
    {out out' : Table String Json} (hout : exact → out' = out) :
    Extends exact (policy.encodeExcess excess out) (policy'.encodeExcess excess out') := by
  intro res hres
  obtain ⟨hstrict, rfl⟩ := encodeExcess_eq_ok.mp hres
  refine ⟨_, encodeExcess_eq_ok.mpr ⟨fun hpolicy => hstrict (hrelaxes hpolicy), rfl⟩, fun h => ?_⟩
  rw [hout h]
  rcases hexact h with rfl | rfl
  · rfl
  · rw [hstrict rfl]
    simp

/-- The second struct accepts what the first accepts, and if `exact` holds, it emits the same. -/
def ExtendedBy (exact : Prop) (s s' : Struct) : Prop := ∀ v, Extends exact (s.encode v) (s'.encode v)

theorem extends_encodeTuple {items items' : List Struct}
    (h : List.Forall₂ (ExtendedBy exact) items items') (position : Nat) (vs : List Json) :
    Extends exact (encodeTuple items position vs) (encodeTuple items' position vs) := by
  induction h generalizing position vs with
  | nil => exact .refl _
  | cons hfirst _ ih =>
    cases vs with
    | nil => exact .refl _
    | cons v vs =>
      rw [encodeTuple_cons, encodeTuple_cons]
      refine ((hfirst v).under _).bind fun w w' hw =>
        (ih _ vs).bind fun ws ws' hws => .ok fun hexact => ?_
      rw [hw hexact, hws hexact]

theorem extends_encodeFields {fields fields' : List (String × Struct)}
    (h : List.Forall₂ (fun field field' => field'.1 = field.1 ∧ field'.2.isOption = field.2.isOption ∧
      ExtendedBy exact field.2 field'.2) fields fields')
    (entries : Table String Json) {out out' : Table String Json} (hout : exact → out' = out) :
    Extends exact (encodeFields fields entries out) (encodeFields fields' entries out') := by
  induction h generalizing out out' with
  | nil => exact .ok hout
  | @cons field field' _ _ hfield _ ih =>
    obtain ⟨name, s⟩ := field
    obtain ⟨_, s'⟩ := field'
    obtain ⟨rfl, hoption, hextends⟩ := hfield
    rw [encodeFields_cons, encodeFields_cons]
    refine ((hextends _).under _).bind fun w w' hw => ih fun hexact => ?_
    dsimp only at hoption
    rw [hw hexact, hout hexact, hoption]

/-- A union accepts what its variants accept, but perhaps through another one. -/
theorem extends_union {items items' : List Struct} {m : Metadata}
    (h : List.Forall₂ (ExtendedBy exact) items items') (hinexact : ¬exact) :
    ExtendedBy exact (.mk (.series .union items) m) (.mk (.series .union items') m) := by
  intro v w hw
  obtain ⟨s, hs, hsw⟩ := encodeUnion_eq_some (encode_union_eq_ok.mp hw)
  obtain ⟨s', hs', hextends⟩ := exists_right_of_mem h hs
  obtain ⟨u, hu, -⟩ := hextends v w hsw
  obtain ⟨w', hw'⟩ := encodeUnion_isSome hs' hu
  exact ⟨w', encode_union_eq_ok.mpr hw', fun hexact => absurd hexact hinexact⟩

theorem extends_object {fields fields' : List (String × Struct)} {policy policy' : UnknownKeys}
    {m : Metadata} (h : List.Forall₂ (fun field field' => field'.1 = field.1 ∧
      field'.2.isOption = field.2.isOption ∧ ExtendedBy exact field.2 field'.2) fields fields')
    (hrelaxes : policy.Relaxes policy') (hexact : exact → policy.ChangesStrict policy') :
    ExtendedBy exact (.mk (.object fields policy) m) (.mk (.object fields' policy') m) := by
  intro v
  cases v with
  | object entries =>
    have hkeys : Table.keys fields' = Table.keys fields := Table.keys_eq_of_forall₂ h fun _ _ h => h.1
    have hcontains : ∀ key, Table.contains key fields' = Table.contains key fields := fun key => by
      rw [Bool.eq_iff_iff, Table.contains_iff, Table.contains_iff, hkeys]
    rw [encode_object, encode_object]
    simp only [hcontains]
    refine (extends_encodeFields h entries fun _ => rfl).bind fun out out' hout => ?_
    refine (extends_encodeExcess hrelaxes hexact _ hout).bind fun out out' hout => .ok fun hexact => ?_
    rw [hout hexact]
  | _ => exact .fail

/-- **Relaxing policies.** Whatever objects refuse fewer keys than before, the struct accepts what it
accepted. It emits the same, if none but strict objects are changed and there is no union. -/
theorem Repoliced.extendedBy {R : UnknownKeys → UnknownKeys → Prop}
    (hrelaxes : ∀ before after, R before after → before.Relaxes after)
    (hstrict : exact → ∀ before after, R before after → before.ChangesStrict after) {s s' : Struct}
    (hunion : exact → s.UnionFree) (h : Repoliced R s s') : ExtendedBy exact s s' := by
  induction s using Struct.induction generalizing s' with
  | leaf l m =>
    cases h
    exact fun v => .refl _
  | wrapper w inner m ih =>
    cases h with
    | wrapper hinner =>
      have hextends := ih (fun hexact => (hunion hexact).part List.mem_cons_self) hinner
      intro v
      cases w with
      | option | nullable =>
        rw [encode_nullish _ _ (by simp), encode_nullish _ _ (by simp)]
        split
        · exact .refl _
        · exact hextends v
      | array =>
        cases v with
        | array vs =>
          refine (extends_encodeAll hextends 0 vs).bind fun ws ws' hws => .ok fun hexact => ?_
          rw [hws hexact]
        | _ => exact .fail
      | dict =>
        cases v with
        | object entries =>
          refine (extends_encodeEntries hextends entries).bind fun out out' hout => .ok fun hexact => ?_
          rw [hout hexact]
        | _ => exact .fail
  | series k items m ih =>
    cases h with
    | series hitems =>
      have hextends := forall₂_imp_of_mem hitems fun s hs s' hss' =>
        ih s hs (fun hexact => (hunion hexact).part hs) hss'
      cases k with
      | tuple =>
        intro v
        cases v with
        | array vs =>
          rw [encode_tuple, encode_tuple, ← hitems.length_eq]
          split
          · exact .fail
          · refine (extends_encodeTuple hextends 0 vs).bind fun ws ws' hws => .ok fun hexact => ?_
            rw [hws hexact]
        | _ => exact .fail
      | union =>
        exact extends_union hextends fun hexact => (unionFree_mk.mp (hunion hexact)).1 items rfl
  | object fields policy m ih =>
    cases h with
    | object hnames hfields hpolicy =>
      refine extends_object (forall₂_imp_of_mem (Repoliced.fields hnames hfields) ?_)
        (hrelaxes _ _ hpolicy) fun hexact => hstrict hexact _ _ hpolicy
      intro field hfield field' ⟨hname, hrepoliced⟩
      exact ⟨hname, hrepoliced.isOption_eq, ih field hfield
        (fun hexact => (hunion hexact).part (List.mem_map_of_mem hfield)) hrepoliced⟩

end Struct

end

/-! ## Lowering -/

/-- Without a default, the metadata is all that counts when it is merged. -/
theorem Node.withMetadata_eq {s s' : Struct} (hmetadata : s'.metadata = s.metadata)
    (hdefault : s.defaultValue = none) (node : Node) : node.withMetadata s' = node.withMetadata s := by
  have hdefault' : s'.defaultValue = none := by
    rw [← hdefault, Struct.defaultValue, hmetadata, Struct.defaultValue]
  simp only [Node.withMetadata, Node.withDefault, hdefault, hdefault', Struct.deprecation,
    Struct.annotated?, hmetadata]

namespace Struct

variable {limit depth : Nat}

theorem lowerItems_congr {container : Container} {items items' : List Struct}
    (h : List.Forall₂ (fun s s' => Struct.lower limit s' depth = Struct.lower limit s depth)
      items items') (position : Nat) :
    lowerItems limit container items' position depth =
      lowerItems limit container items position depth := by
  induction h generalizing position with
  | nil => rfl
  | cons hfirst _ ih => rw [lowerItems_cons, lowerItems_cons, hfirst, ih]

theorem lowerFields_congr {fields fields' : List (String × Struct)}
    (h : List.Forall₂ (fun field field' => field'.1 = field.1 ∧
      Struct.lower limit field'.2 depth = Struct.lower limit field.2 depth) fields fields') :
    lowerFields limit fields' depth = lowerFields limit fields depth := by
  induction h with
  | nil => rfl
  | @cons field field' _ _ hfield _ ih =>
    obtain ⟨name, s⟩ := field
    obtain ⟨_, s'⟩ := field'
    obtain ⟨rfl, hlower⟩ := hfield
    rw [lowerFields_cons, lowerFields_cons, hlower, ih]

theorem objectFragment_eq {policy policy' : UnknownKeys} (h : policy.KeepsAlike policy')
    (nodes : List (String × Node)) : objectFragment policy' nodes = objectFragment policy nodes := by
  have hkeeps : (policy' == .passthrough) = (policy == .passthrough) := by
    rw [Bool.eq_iff_iff, beq_iff_eq, beq_iff_eq]
    exact h.symm
  rw [objectFragment, objectFragment, hkeeps]

/-- Schemas do not tell strict objects from those that drop other keys. -/
theorem Repoliced.lower_eq {s s' : Struct} (hdefaults : s.Undefaulted)
    (h : Repoliced UnknownKeys.KeepsAlike s s') : s'.lower limit depth = s.lower limit depth := by
  induction s using Struct.induction_parts generalizing s' depth with
  | step s ih =>
    have hshape : lowerShape limit s'.shape (depth + 1) = lowerShape limit s.shape (depth + 1) := by
      cases h with
      | leaf => rfl
      | wrapper hinner =>
        simp only [shape, lowerShape_wrapper,
          ih _ List.mem_cons_self (hdefaults.part List.mem_cons_self) hinner]
      | @series _ items items' _ hitems =>
        have hlower : List.Forall₂ (fun t t' => Struct.lower limit t' (depth + 1) =
            Struct.lower limit t (depth + 1)) items items' :=
          forall₂_imp_of_mem hitems fun t ht t' htt' => ih t ht (hdefaults.part ht) htt'
        simp only [shape, lowerShape_series, lowerItems_congr hlower]
      | @object fields fields' _ _ _ hnames hfields hpolicy =>
        have hlower : List.Forall₂ (fun field field' => field'.1 = field.1 ∧
            Struct.lower limit field'.2 (depth + 1) = Struct.lower limit field.2 (depth + 1))
            fields fields' := by
          refine forall₂_imp_of_mem (Repoliced.fields hnames hfields) ?_
          rintro field hfield field' ⟨hname, hrepoliced⟩
          have hpart : field.2 ∈ fields.map Prod.snd := List.mem_map_of_mem hfield
          exact ⟨hname, ih field.2 hpart (hdefaults.part hpart) hrepoliced⟩
        simp only [shape, lowerShape_object, lowerFields_congr hlower, objectFragment_eq hpolicy]
    simp only [Struct.lower_eq, h.kind_eq, hshape,
      Node.withMetadata_eq h.metadata_eq (hdefaults s (.refl s))]

end Struct

/-- **Relaxing policies.** Let some objects of a struct, at any depth, refuse fewer keys than before.
Every value that was accepted is accepted. If only strict objects are changed and there is no union, it
is also emitted the same, key order included. Whether an object refuses other keys or drops them makes
no difference to the schema of a struct without defaults, nor to its errors, nor to the log. -/
theorem relaxed_policies (s s' : Struct) :
    (s.Repoliced UnknownKeys.Relaxes s' →
      ∀ v, (∃ w, s.encode v = .ok w) → ∃ w, s'.encode v = .ok w) ∧
    (s.Repoliced UnknownKeys.ChangesStrict s' → s.UnionFree →
      ∀ v w, s.encode v = .ok w → s'.encode v = .ok w) ∧
    (s.Repoliced UnknownKeys.KeepsAlike s' → s.Undefaulted →
      ∀ config, s'.node config = s.node config) := by
  refine ⟨fun h v => ?_, fun h hunion v w hw => ?_, fun h hdefaults config => h.lower_eq hdefaults⟩
  · rintro ⟨w, hw⟩
    have hextended : Struct.ExtendedBy False s s' :=
      h.extendedBy (fun _ _ => id) False.elim False.elim
    obtain ⟨w', hw', -⟩ := hextended v w hw
    exact ⟨w', hw'⟩
  · obtain ⟨w', hw', heq⟩ := h.extendedBy (fun _ _ => UnknownKeys.ChangesStrict.relaxes)
      (fun _ _ _ => id) (fun _ => hunion) v w hw
    rwa [heq trivial] at hw'

/-- A width alone. -/
def lengthwise (policy : UnknownKeys) : Struct :=
  .withUnknownKeys policy (.object [("width", .int)])

/-- A width, or a width and a height. -/
def extent (policy : UnknownKeys) : Struct :=
  .union [lengthwise policy, .object [("width", .int), ("height", .int)]]

/-- The width alone does not fit both, unless it drops the height; then it is chosen. -/
theorem relaxed_policies_extent :
    ((extent .strict).encode (.object [("width", .int 2), ("height", .int 3)]) =
        .ok (.object [("width", .int 2), ("height", .int 3)]) ∧
      ∃ w, (extent .strip).encode (.object [("width", .int 2), ("height", .int 3)]) = .ok w ∧
        w = .object [("width", .int 2)]) ∧
    (lengthwise .passthrough).encode (.object [("width", .int 2)]) =
      .ok (.object [("width", .int 2)]) ∧
    (extent .strip).node {} = (extent .strict).node {} := by
  have hlengthwise : ∀ {R : UnknownKeys → UnknownKeys → Prop} {policy : UnknownKeys},
      R .strict policy → (lengthwise .strict).Repoliced R (lengthwise policy) := fun hR =>
    .object rfl (.cons (.leaf _ _) .nil) hR
  have hextent : ∀ {R : UnknownKeys → UnknownKeys → Prop} {policy : UnknownKeys},
      R .strict policy → R .strip .strip → (extent .strict).Repoliced R (extent policy) :=
    fun hR hstrip => .series (.cons (hlengthwise hR)
      (.cons (.object rfl (.cons (.leaf _ _) (.cons (.leaf _ _) .nil)) hstrip) .nil))
  have hunion : (lengthwise .strict).UnionFree := by
    simp [lengthwise, Struct.object, Struct.withUnknownKeys, Table.ofList, Table.insert, Table.merge,
      Struct.unionFree_mk, Shape.parts, Struct.int, Struct.leaf]
  have hdefaults : (extent .strict).Undefaulted := by
    simp [extent, lengthwise, Struct.union, Struct.object, Struct.withUnknownKeys, Table.ofList,
      Table.insert, Table.merge, Struct.undefaulted_mk, Shape.parts, Struct.int, Struct.leaf]
  have hbefore : (extent .strict).encode (.object [("width", .int 2), ("height", .int 3)]) =
      .ok (.object [("width", .int 2), ("height", .int 3)]) := rfl
  obtain ⟨w, hw⟩ := (relaxed_policies (extent .strict) (extent .strip)).1
    (hextent (fun _ => rfl) id) _ ⟨_, hbefore⟩
  refine ⟨⟨hbefore, w, hw, (Except.ok.inj hw).symm⟩, ?_, ?_⟩
  · exact (relaxed_policies (lengthwise .strict) (lengthwise .passthrough)).2.1
      (hlengthwise (.inr rfl)) hunion _ _ rfl
  · exact (relaxed_policies (extent .strict) (extent .strip)).2.2
      (hextent (by simp [UnknownKeys.KeepsAlike]) Iff.rfl) hdefaults {}

end ShapeSchema
