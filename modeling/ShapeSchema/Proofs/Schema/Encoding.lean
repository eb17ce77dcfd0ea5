import Mathlib.Data.List.Forall2
import ShapeSchema.Proofs.Outcome
import ShapeSchema.Proofs.Struct.Parts
import ShapeSchema.Proofs.Table
import ShapeSchema.Schema.Encoding

/-!
# What encoding does, shape by shape

For each way in which structs are put together, when encoding succeeds and with what: items and
entries one by one, the fields of an object each with the entry of its name, and of a union one
variant that accepts.
-/

namespace ShapeSchema

theorem Encoded.under_eq_ok {α : Type} {step : String} {r : Encoded α} {a : α} :
    r.under step = .ok a ↔ r = .ok a := mapError_eq_ok

/-! ## Equations -/

theorem encodeAll_nil (encode : Json → Encoded Json) (position : Nat) :
    encodeAll encode position [] = .ok [] := rfl

theorem encodeAll_cons (encode : Json → Encoded Json) (position : Nat) (v : Json) (rest : List Json) :
    encodeAll encode position (v :: rest) =
      ((encode v).under (Nat.repr position) >>= fun w =>
        encodeAll encode (position + 1) rest >>= fun ws => .ok (w :: ws)) := rfl

theorem encodeEntries_nil (encode : Json → Encoded Json) : encodeEntries encode [] = .ok [] := rfl

theorem encodeEntries_cons (encode : Json → Encoded Json) (key : String) (v : Json)
    (rest : List (String × Json)) :
    encodeEntries encode ((key, v) :: rest) =
      ((encode v).under key >>= fun w =>
        encodeEntries encode rest >>= fun out => .ok ((key, w) :: out)) := rfl

namespace Struct

theorem encodeTuple_nil (position : Nat) (vs : List Json) : encodeTuple [] position vs = .ok [] := rfl

theorem encodeTuple_cons (s : Struct) (rest : List Struct) (position : Nat) (v : Json)
    (vs : List Json) :
    encodeTuple (s :: rest) position (v :: vs) =
      ((s.encode v).under (Nat.repr position) >>= fun w =>
        encodeTuple rest (position + 1) vs >>= fun ws => .ok (w :: ws)) := rfl

theorem encodeUnion_nil (v : Json) : encodeUnion [] v = none := rfl

theorem encodeUnion_cons (s : Struct) (rest : List Struct) (v : Json) :
    encodeUnion (s :: rest) v = match s.encode v with
      | .ok w => some w
      | .error _ => encodeUnion rest v := rfl

theorem encodeFields_nil (entries out : Table String Json) :
    encodeFields [] entries out = .ok out := rfl

theorem encodeFields_cons (name : String) (s : Struct) (rest : List (String × Struct))
    (entries out : Table String Json) :
    encodeFields ((name, s) :: rest) entries out =
      ((s.encode ((Table.find? name entries).getD .null)).under name >>= fun w =>
        encodeFields rest entries
          (if w.isNull && s.isOption then out else Table.insert name w out)) := rfl

section

variable (inner : Struct) (items : List Struct) (fields : List (String × Struct))
  (policy : UnknownKeys) (m : Metadata)

theorem encode_leaf (l : Leaf) (v : Json) : (Struct.mk (.leaf l) m).encode v = l.encode v := rfl

theorem encode_nullish {w : Wrapper} (hw : w = .option ∨ w = .nullable) (v : Json) :
    (Struct.mk (.wrapper w inner) m).encode v = if v.isNull then .ok .null else inner.encode v := by
  rcases hw with rfl | rfl <;> rfl

theorem encode_array (vs : List Json) :
    (Struct.mk (.wrapper .array inner) m).encode (.array vs) =
      (encodeAll inner.encode 0 vs >>= fun ws => .ok (.array ws)) := rfl

theorem encode_dict (entries : List (String × Json)) :
    (Struct.mk (.wrapper .dict inner) m).encode (.object entries) =
      (encodeEntries inner.encode entries >>= fun out => .ok (.object out)) := rfl

theorem encode_tuple (vs : List Json) :
    (Struct.mk (.series .tuple items) m).encode (.array vs) =
      if vs.length ≠ items.length then .fail (.wrongLength items.length vs.length)
      else encodeTuple items 0 vs >>= fun ws => .ok (.array ws) := rfl

theorem encode_union (v : Json) :
    (Struct.mk (.series .union items) m).encode v = match encodeUnion items v with
      | some w => .ok w
      | none => .fail (.noVariant v) := rfl

theorem encode_object (entries : List (String × Json)) :
    (Struct.mk (.object fields policy) m).encode (.object entries) =
      (encodeFields fields entries [] >>= fun out =>
        policy.encodeExcess (entries.filter fun entry => !Table.contains entry.1 fields) out >>=
          fun out => .ok (.object out)) := rfl

end

end Struct

/-! ## Parts -/

theorem encodeAll_eq_ok {encode : Json → Encoded Json} {position : Nat} {vs ws : List Json} :
    encodeAll encode position vs = .ok ws ↔ List.Forall₂ (fun v w => encode v = .ok w) vs ws := by
  induction vs generalizing position ws with
  | nil => simp [encodeAll_nil, eq_comm]
  | cons v rest ih =>
    simp only [encodeAll_cons, bind_eq_ok, Encoded.under_eq_ok, ih, List.forall₂_cons_left_iff,
      Except.ok.injEq]
    constructor
    · intro h
      obtain ⟨w, hw, ws', hrest, rfl⟩ := h
      exact ⟨w, ws', hw, hrest, rfl⟩
    · intro h
      obtain ⟨w, ws', hw, hrest, rfl⟩ := h
      exact ⟨w, hw, ws', hrest, rfl⟩

theorem encodeEntries_eq_ok {encode : Json → Encoded Json} {entries out : List (String × Json)} :
    encodeEntries encode entries = .ok out ↔
      List.Forall₂ (fun entry o => o.1 = entry.1 ∧ encode entry.2 = .ok o.2) entries out := by
  induction entries generalizing out with
  | nil => simp [encodeEntries_nil, eq_comm]
  | cons entry rest ih =>
    obtain ⟨key, v⟩ := entry
    simp only [encodeEntries_cons, bind_eq_ok, Encoded.under_eq_ok, ih, List.forall₂_cons_left_iff,
      Except.ok.injEq]
    constructor
    · intro h
      obtain ⟨w, hw, out', hrest, rfl⟩ := h
      exact ⟨(key, w), out', ⟨rfl, hw⟩, hrest, rfl⟩
    · intro h
      obtain ⟨⟨_, w⟩, out', ⟨rfl, hw⟩, hrest, rfl⟩ := h
      exact ⟨w, hw, out', hrest, rfl⟩

namespace Struct

theorem encodeTuple_eq_ok {items : List Struct} {position : Nat} {vs ws : List Json} :
    encodeTuple items position vs = .ok ws ↔
      List.Forall₂ (fun p w => Struct.encode p.1 p.2 = .ok w) (items.zip vs) ws := by
  induction items generalizing position vs ws with
  | nil => simp [encodeTuple_nil, eq_comm]
  | cons s rest ih =>
    cases vs with
    | nil =>
      have hnil : encodeTuple (s :: rest) position [] = .ok [] := rfl
      simp [hnil, eq_comm]
    | cons v vs =>
      simp only [encodeTuple_cons, bind_eq_ok, Encoded.under_eq_ok, ih, List.zip_cons_cons,
        List.forall₂_cons_left_iff, Except.ok.injEq]
      constructor
      · intro h
        obtain ⟨w, hw, ws', hrest, rfl⟩ := h
        exact ⟨w, ws', hw, hrest, rfl⟩
      · intro h
        obtain ⟨w, ws', hw, hrest, rfl⟩ := h
        exact ⟨w, hw, ws', hrest, rfl⟩

/-- What an object emits for a field that is encoded as `w`: nothing for an option that is null. -/
def emits (field : String × Struct) (w : Json) : List (String × Json) :=
  if w.isNull && field.2.isOption then [] else [(field.1, w)]

/-- What an object emits for its fields, encoded as the values `ws`. -/
def emitted (fields : List (String × Struct)) (ws : List Json) : List (String × Json) :=
  (List.zipWith emits fields ws).flatten

/-- The value that a field is given: that of the entry of its name, or null. -/
def input (entries : Table String Json) (field : String × Struct) : Json :=
  (Table.find? field.1 entries).getD .null

theorem encodeFields_eq_ok {fields : List (String × Struct)} {entries out out' : Table String Json}
    (hdistinct : Table.Distinct fields) (hfresh : ∀ name ∈ Table.keys fields, name ∉ Table.keys out) :
    encodeFields fields entries out = .ok out' ↔
      ∃ ws, List.Forall₂ (fun field w => field.2.encode (input entries field) = .ok w) fields ws ∧
        out' = out ++ emitted fields ws := by
  induction fields generalizing out out' with
  | nil => simp [encodeFields_nil, emitted, eq_comm]
  | cons field rest ih =>
    obtain ⟨name, s⟩ := field
    obtain ⟨hnew, hrest⟩ := Table.distinct_cons.mp hdistinct
    have hname : name ∉ Table.keys out := hfresh name (by simp)
    -- The table after this field is the old one with what the field emits at its end.
    have hstep : ∀ w, (if w.isNull && s.isOption then out else Table.insert name w out) =
        out ++ emits (name, s) w := by
      intro w
      rw [emits]
      split
      · simp
      · rw [Table.insert_of_not_mem hname]
    have hfresh' : ∀ w, ∀ key ∈ Table.keys rest, key ∉ Table.keys (out ++ emits (name, s) w) := by
      intro w key hkey hmem
      simp only [Table.keys, List.map_append, List.mem_append] at hmem
      rcases hmem with hmem | hmem
      · exact hfresh key (by simp [hkey]) hmem
      · rw [emits] at hmem
        split at hmem
        · simp at hmem
        · obtain rfl : key = name := by simpa using hmem
          exact hnew hkey
    simp only [encodeFields_cons, bind_eq_ok, Encoded.under_eq_ok, hstep, ih hrest (hfresh' _),
      List.forall₂_cons_left_iff]
    constructor
    · intro h
      obtain ⟨w, hw, ws, hws, rfl⟩ := h
      exact ⟨w :: ws, ⟨w, ws, hw, hws, rfl⟩, by simp [emitted]⟩
    · intro h
      obtain ⟨_, ⟨w, ws, hw, hws, rfl⟩, rfl⟩ := h
      exact ⟨w, hw, ws, hws, by simp [emitted]⟩

section

variable {R : String × Struct → Json → Prop} {fields : List (String × Struct)} {ws : List Json}

theorem of_mem_emitted (h : List.Forall₂ R fields ws) {entry : String × Json}
    (hentry : entry ∈ emitted fields ws) :
    ∃ field ∈ fields, entry.1 = field.1 ∧ R field entry.2 ∧
      ¬(field.2.isOption = true ∧ entry.2 = .null) := by
  induction h with
  | nil => simp [emitted] at hentry
  | @cons field w fields ws hfield _ ih =>
    simp only [emitted, List.zipWith_cons_cons, List.flatten_cons, List.mem_append] at hentry
    rcases hentry with hentry | hentry
    · rw [emits] at hentry
      split at hentry
      · simp at hentry
      · rename_i hnull
        obtain rfl : entry = (field.1, w) := by simpa using hentry
        refine ⟨field, by simp, rfl, hfield, ?_⟩
        intro h
        obtain ⟨hoption, rfl⟩ := h
        exact hnull (by simp [Json.isNull, hoption])
    · obtain ⟨field', hmem, hrest⟩ := ih hentry
      exact ⟨field', by simp [hmem], hrest⟩

/-- A field that is no option is always emitted. -/
theorem mem_emitted (h : List.Forall₂ R fields ws) {field : String × Struct} (hmem : field ∈ fields)
    (hoption : field.2.isOption = false) : ∃ w, R field w ∧ (field.1, w) ∈ emitted fields ws := by
  induction h with
  | nil => simp at hmem
  | @cons first w fields ws hfield _ ih =>
    rcases List.mem_cons.mp hmem with rfl | hmem
    · exact ⟨w, hfield, by simp [emitted, emits, hoption]⟩
    · obtain ⟨w', hw', hentry⟩ := ih hmem
      exact ⟨w', hw', by
        simp only [emitted, List.zipWith_cons_cons, List.flatten_cons, List.mem_append]
        exact .inr hentry⟩

end

/-- What a union emits is what the first of its variants emits that accepts. -/
theorem encodeUnion_eq_some_iff {variants : List Struct} {v w : Json} :
    encodeUnion variants v = some w ↔ ∃ before s after, variants = before ++ s :: after ∧
      (∀ t ∈ before, ∀ u, t.encode v ≠ .ok u) ∧ s.encode v = .ok w := by
  constructor
  · intro h
    induction variants with
    | nil => simp [encodeUnion_nil] at h
    | cons s rest ih =>
      rw [encodeUnion_cons] at h
      cases hs : s.encode v with
      | ok u =>
        rw [hs] at h
        obtain rfl : u = w := Option.some.inj h
        exact ⟨[], s, rest, rfl, by simp, hs⟩
      | error e =>
        rw [hs] at h
        obtain ⟨before, t, after, rfl, hrefused, ht⟩ := ih h
        exact ⟨s :: before, t, after, rfl, List.forall_mem_cons.mpr ⟨by simp [hs], hrefused⟩, ht⟩
  · rintro ⟨before, s, after, rfl, hrefused, hs⟩
    induction before with
    | nil => rw [List.nil_append, encodeUnion_cons, hs]
    | cons t before ih =>
      obtain ⟨ht, hbefore⟩ := List.forall_mem_cons.mp hrefused
      rw [List.cons_append, encodeUnion_cons]
      cases ht' : t.encode v with
      | ok u => exact absurd ht' (ht u)
      | error e => exact ih hbefore

theorem encodeUnion_eq_some {variants : List Struct} {v w : Json}
    (h : encodeUnion variants v = some w) : ∃ s ∈ variants, s.encode v = .ok w := by
  obtain ⟨before, s, after, rfl, -, hs⟩ := encodeUnion_eq_some_iff.mp h
  exact ⟨s, by simp, hs⟩

/-- A union accepts what one of its variants accepts. -/
theorem encodeUnion_isSome {variants : List Struct} {s : Struct} {v w : Json} (hs : s ∈ variants)
    (h : s.encode v = .ok w) : ∃ w', encodeUnion variants v = some w' := by
  induction variants with
  | nil => simp at hs
  | cons t rest ih =>
    rw [encodeUnion_cons]
    cases ht : t.encode v with
    | ok w' =>
      -- A variant further in front takes the value.
      exact ⟨w', rfl⟩
    | error e =>
      rcases List.mem_cons.mp hs with rfl | hs
      · rw [h] at ht
        cases ht
      · exact ih hs

/-! ## Shape by shape -/

section

variable {m : Metadata} {v w : Json}

theorem encode_leaf_eq_ok {l : Leaf} :
    (Struct.mk (.leaf l) m).encode v = .ok w ↔ l.admits v = true ∧ v = w := by
  rw [encode_leaf, Leaf.encode.eq_def]
  split
  · simp [Encoded.fail, Leaf.admits]
  · split <;> simp_all [Encoded.fail]

/-- Options and nullable structs pass null on; everything else is for the struct inside. -/
theorem encode_nullish_eq_ok {wr : Wrapper} (hwr : wr = .option ∨ wr = .nullable) {inner : Struct} :
    (Struct.mk (.wrapper wr inner) m).encode v = .ok w ↔
      v = .null ∧ w = .null ∨ v ≠ .null ∧ inner.encode v = .ok w := by
  rw [encode_nullish inner m hwr]
  cases v <;> simp [Json.isNull, eq_comm]

theorem encode_array_eq_ok {inner : Struct} :
    (Struct.mk (.wrapper .array inner) m).encode v = .ok w ↔
      ∃ vs ws, v = .array vs ∧ List.Forall₂ (fun x y => inner.encode x = .ok y) vs ws ∧
        w = .array ws := by
  cases v with
  | array vs => simp [encode_array, bind_eq_ok, encodeAll_eq_ok, @eq_comm _ (Json.array _) w]
  | _ =>
    constructor
    · intro h
      cases h
    · intro h
      obtain ⟨_, _, h, -⟩ := h
      cases h

theorem encode_dict_eq_ok {inner : Struct} :
    (Struct.mk (.wrapper .dict inner) m).encode v = .ok w ↔
      ∃ entries out, v = .object entries ∧
        List.Forall₂ (fun entry o => o.1 = entry.1 ∧ inner.encode entry.2 = .ok o.2) entries out ∧
        w = .object out := by
  cases v with
  | object entries => simp [encode_dict, bind_eq_ok, encodeEntries_eq_ok, @eq_comm _ (Json.object _) w]
  | _ =>
    constructor
    · intro h
      cases h
    · intro h
      obtain ⟨_, _, h, -⟩ := h
      cases h

theorem encode_tuple_eq_ok {items : List Struct} :
    (Struct.mk (.series .tuple items) m).encode v = .ok w ↔
      ∃ vs ws, v = .array vs ∧ vs.length = items.length ∧
        List.Forall₂ (fun p y => Struct.encode p.1 p.2 = .ok y) (items.zip vs) ws ∧
        w = .array ws := by
  cases v with
  | array vs =>
    by_cases hlen : vs.length = items.length
    · simp [encode_tuple, hlen, bind_eq_ok, encodeTuple_eq_ok, @eq_comm _ (Json.array _) w]
    · simp [encode_tuple, hlen, Encoded.fail]
  | _ =>
    constructor
    · intro h
      cases h
    · intro h
      obtain ⟨_, _, h, -⟩ := h
      cases h

theorem encode_union_eq_ok {variants : List Struct} :
    (Struct.mk (.series .union variants) m).encode v = .ok w ↔ encodeUnion variants v = some w := by
  rw [encode_union]
  cases encodeUnion variants v <;> simp [Encoded.fail]

/-- The entries of an object that are not among the fields. -/
def excess (fields : List (String × Struct)) (entries : List (String × Json)) :
    List (String × Json) :=
  entries.filter fun entry => !Table.contains entry.1 fields

theorem mem_excess {fields : List (String × Struct)} {entries : List (String × Json)}
    {entry : String × Json} :
    entry ∈ excess fields entries ↔ entry ∈ entries ∧ entry.1 ∉ Table.keys fields := by
  simp [excess, ← Table.contains_iff]

/-- What an object emits: what its fields emit and, if it keeps them, the other entries. -/
def output (policy : UnknownKeys) (fields : List (String × Struct))
    (entries : List (String × Json)) (ws : List Json) : Table String Json :=
  if policy = .passthrough then Table.merge (emitted fields ws) (excess fields entries)
  else emitted fields ws

section

variable {policy : UnknownKeys} {fields : List (String × Struct)} {entries : List (String × Json)}
  {ws : List Json} {entry : String × Json}

theorem mem_output (h : entry ∈ output policy fields entries ws) :
    entry ∈ emitted fields ws ∨ policy = .passthrough ∧ entry ∈ excess fields entries := by
  rw [output] at h
  split at h
  · rename_i hpolicy
    exact (Table.mem_merge h).imp id fun hexcess => ⟨hpolicy, hexcess⟩
  · exact .inl h

theorem mem_output_of_field (h : entry ∈ emitted fields ws) (hname : entry.1 ∈ Table.keys fields) :
    entry ∈ output policy fields entries ws := by
  rw [output]
  split
  · refine Table.mem_merge_of_not_mem h fun hkey => ?_
    obtain ⟨other, hother, hsame⟩ := List.mem_map.mp hkey
    exact (mem_excess.mp hother).2 (hsame ▸ hname)
  · exact h

end

theorem encodeExcess_eq_ok {policy : UnknownKeys} {excess : List (String × Json)}
    {out out' : Table String Json} :
    policy.encodeExcess excess out = .ok out' ↔
      (policy = .strict → excess = []) ∧
        (if policy = .passthrough then Table.merge out excess else out) = out' := by
  cases policy <;> cases excess <;> simp [UnknownKeys.encodeExcess, Encoded.fail]

theorem encode_object_eq_ok {fields : List (String × Struct)} {policy : UnknownKeys}
    (hdistinct : Table.Distinct fields) :
    (Struct.mk (.object fields policy) m).encode v = .ok w ↔
      ∃ entries ws, v = .object entries ∧
        List.Forall₂ (fun field y => field.2.encode (input entries field) = .ok y) fields ws ∧
        (policy = .strict → excess fields entries = []) ∧
        w = .object (output policy fields entries ws) := by
  cases v with
  | object entries =>
    have hfields : ∀ out, encodeFields fields entries [] = .ok out ↔
        ∃ ws, List.Forall₂ (fun field y => field.2.encode (input entries field) = .ok y) fields ws ∧
          out = emitted fields ws :=
      fun _ => encodeFields_eq_ok hdistinct (by simp)
    simp only [encode_object, bind_eq_ok, hfields, Except.ok.injEq]
    constructor
    · intro h
      obtain ⟨out, ⟨ws, hws, rfl⟩, out', hexcess, rfl⟩ := h
      obtain ⟨hstrict, rfl⟩ := encodeExcess_eq_ok.mp hexcess
      exact ⟨entries, ws, rfl, hws, hstrict, rfl⟩
    · intro h
      obtain ⟨_, ws, heq, hws, hstrict, rfl⟩ := h
      obtain rfl := Json.object.inj heq
      exact ⟨_, ⟨ws, hws, rfl⟩, _, encodeExcess_eq_ok.mpr ⟨hstrict, rfl⟩, rfl⟩
  | _ =>
    constructor
    · intro h
      cases h
    · intro h
      obtain ⟨_, _, h, -⟩ := h
      cases h

end

end Struct

end ShapeSchema
