import ShapeSchema.Proofs.Schema.Encoding

/-!
# Errors of encoding and their culprits

The place of an error leads, from the struct and the value together, to a part that refuses what it
is given. `Struct.LeadsTo` is that walk: at each of its levels all parts that come before have been
encoded. An error is one that the walk finds, and conversely.
-/

namespace ShapeSchema

/-! ## Turns -/

/-- Encoding comes to a part of a struct, with the value for it. -/
structure Turn where
  /-- What the place of an error in there says of the way. -/
  step : String
  part : Struct
  value : Json

namespace Turn

/-- The part encodes what it is given. -/
def GoesWell (turn : Turn) : Prop := ∃ w, turn.part.encode turn.value = .ok w

/-- The turn comes: all those before it have gone well. -/
def Due (turn : Turn) (turns : List Turn) : Prop :=
  ∃ before after, turns = before ++ turn :: after ∧ ∀ earlier ∈ before, earlier.GoesWell

/-- What the turn contributes to encoding the whole. -/
def outcome (turn : Turn) : Encoded Json := (turn.part.encode turn.value).under turn.step

theorem Due.mem {turn : Turn} {turns : List Turn} (h : turn.Due turns) : turn ∈ turns := by
  obtain ⟨before, after, rfl, -⟩ := h
  simp

theorem not_due_nil (turn : Turn) : ¬ turn.Due [] := by
  intro h
  simpa using h.mem

theorem due_cons {turn first : Turn} {rest : List Turn} :
    turn.Due (first :: rest) ↔ turn = first ∨ first.GoesWell ∧ turn.Due rest := by
  constructor
  · rintro ⟨before, after, heq, hbefore⟩
    cases before with
    | nil => exact .inl (List.cons.inj heq).1.symm
    | cons earlier before =>
      obtain ⟨rfl, hrest⟩ := List.cons.inj heq
      obtain ⟨hfirst, hbefore⟩ := List.forall_mem_cons.mp hbefore
      exact .inr ⟨hfirst, before, after, hrest, hbefore⟩
  · rintro (rfl | ⟨hfirst, before, after, rfl, hbefore⟩)
    · exact ⟨[], rest, rfl, by simp⟩
    · exact ⟨first :: before, after, rfl, List.forall_mem_cons.mpr ⟨hfirst, hbefore⟩⟩

theorem outcome_eq_ok {turn : Turn} {w : Json} :
    turn.outcome = .ok w ↔ turn.part.encode turn.value = .ok w :=
  Encoded.under_eq_ok

end Turn

/-- One of the turns fails with this error, and all before it have gone well. -/
def Blames (turns : List Turn) (e : EncodeError) : Prop :=
  ∃ turn : Turn, turn.Due turns ∧ turn.outcome = .error e

theorem not_blames_nil (e : EncodeError) : ¬ Blames [] e := by
  rintro ⟨turn, hdue, -⟩
  exact turn.not_due_nil hdue

/-- Turns are taken one after the other, up to the first that fails. -/
theorem blames_cons {first : Turn} {rest : List Turn} {e : EncodeError} :
    Blames (first :: rest) e ↔
      first.outcome = .error e ∨ ∃ w, first.outcome = .ok w ∧ Blames rest e := by
  simp only [Blames, Turn.due_cons]
  constructor
  · rintro ⟨turn, rfl | ⟨⟨w, hw⟩, hdue⟩, he⟩
    · exact .inl he
    · exact .inr ⟨w, Turn.outcome_eq_ok.mpr hw, turn, hdue, he⟩
  · rintro (he | ⟨w, hw, turn, hdue, he⟩)
    · exact ⟨first, .inl rfl, he⟩
    · exact ⟨turn, .inr ⟨⟨w, Turn.outcome_eq_ok.mp hw⟩, hdue⟩, he⟩

/-! ### The turns of each container -/

/-- The items of a list, each for the same part. -/
def turnsOfItems (inner : Struct) (position : Nat) (vs : List Json) : List Turn :=
  (vs.zipIdx position).map fun (v, i) => ⟨Nat.repr i, inner, v⟩

/-- The entries of an object, each for the same part. -/
def turnsOfEntries (inner : Struct) (entries : List (String × Json)) : List Turn :=
  entries.map fun (key, v) => ⟨key, inner, v⟩

/-- The items of a list, each for the part at its position. -/
def turnsOfTuple (items : List Struct) (position : Nat) (vs : List Json) : List Turn :=
  ((items.zip vs).zipIdx position).map fun ((s, v), i) => ⟨Nat.repr i, s, v⟩

/-- The declared fields, each with the value of its name. -/
def turnsOfFields (fields : List (String × Struct)) (entries : Table String Json) : List Turn :=
  fields.map fun field => ⟨field.1, field.2, Struct.input entries field⟩

section

variable {inner : Struct} {position : Nat} {e : EncodeError}

theorem encodeAll_eq_error {vs : List Json} :
    encodeAll inner.encode position vs = .error e ↔ Blames (turnsOfItems inner position vs) e := by
  induction vs generalizing position with
  | nil =>
    rw [encodeAll_nil]
    exact iff_of_false (by simp) (not_blames_nil e)
  | cons v rest ih =>
    rw [encodeAll_cons, bind_eq_error, turnsOfItems, List.zipIdx_cons, List.map_cons, blames_cons]
    simp only [bind_ok_eq_error, ih]
    rfl

theorem encodeEntries_eq_error {entries : List (String × Json)} :
    encodeEntries inner.encode entries = .error e ↔ Blames (turnsOfEntries inner entries) e := by
  induction entries with
  | nil =>
    rw [encodeEntries_nil]
    exact iff_of_false (by simp) (not_blames_nil e)
  | cons entry rest ih =>
    obtain ⟨key, v⟩ := entry
    rw [encodeEntries_cons, bind_eq_error, turnsOfEntries, List.map_cons, blames_cons]
    simp only [bind_ok_eq_error, ih]
    rfl

namespace Struct

theorem encodeTuple_eq_error {items : List Struct} {vs : List Json} :
    encodeTuple items position vs = .error e ↔ Blames (turnsOfTuple items position vs) e := by
  induction items generalizing position vs with
  | nil =>
    rw [encodeTuple_nil]
    exact iff_of_false (by simp) (not_blames_nil e)
  | cons s rest ih =>
    cases vs with
    | nil => exact iff_of_false (by simp [encodeTuple]) (not_blames_nil e)
    | cons v vs =>
      rw [encodeTuple_cons, bind_eq_error, turnsOfTuple, List.zip_cons_cons, List.zipIdx_cons,
        List.map_cons, blames_cons]
      simp only [bind_ok_eq_error, ih]
      rfl

theorem encodeFields_eq_error {fields : List (String × Struct)} {entries out : Table String Json} :
    encodeFields fields entries out = .error e ↔ Blames (turnsOfFields fields entries) e := by
  induction fields generalizing out with
  | nil =>
    rw [encodeFields_nil]
    exact iff_of_false (by simp) (not_blames_nil e)
  | cons field rest ih =>
    obtain ⟨name, s⟩ := field
    rw [encodeFields_cons, bind_eq_error, turnsOfFields, List.map_cons, blames_cons]
    simp only [ih]
    rfl

end Struct

end

/-! ## Walks -/

namespace Struct

/-- The turns of encoding a value through a struct, one step further in. A tuple comes to its items
only if there are as many values; what is no container, and what gets nothing to go through, has no
turns. Options and nullable structs pass the value on as it is, which is no step. -/
def turns : Struct → Json → List Turn
  | .mk (.wrapper .array inner) _, .array vs => turnsOfItems inner 0 vs
  | .mk (.wrapper .dict inner) _, .object entries => turnsOfEntries inner entries
  | .mk (.series .tuple items) _, .array vs =>
    if vs.length = items.length then turnsOfTuple items 0 vs else []
  | .mk (.object fields _) _, .object entries => turnsOfFields fields entries
  | _, _ => []

/-- A walk along the place leads from the struct and the value to a part and what it is given, and at
each level of the walk all that comes earlier has gone well. -/
inductive LeadsTo : Struct → Json → Place → Struct → Json → Prop
  | here (s : Struct) (v : Json) : LeadsTo s v [] s v
  | through {w : Wrapper} {inner : Struct} {m : Metadata} {v : Json} {place : Place} {t : Struct}
      {x : Json} (nullish : w = .option ∨ w = .nullable) (present : v ≠ .null)
      (rest : LeadsTo inner v place t x) : LeadsTo (.mk (.wrapper w inner) m) v place t x
  | step {s : Struct} {v : Json} {turn : Turn} {place : Place} {t : Struct} {x : Json}
      (due : turn.Due (s.turns v)) (rest : LeadsTo turn.part turn.value place t x) :
      LeadsTo s v (turn.step :: place) t x

/-- The turns are taken by parts of the struct. -/
theorem part_of_mem_turns {s : Struct} {v : Json} {turn : Turn} (h : turn ∈ s.turns v) :
    turn.part ∈ s.shape.parts := by
  rw [turns.eq_def] at h
  split at h
  · obtain ⟨p, -, rfl⟩ := List.mem_map.mp h
    simp [shape, Shape.parts]
  · obtain ⟨entry, -, rfl⟩ := List.mem_map.mp h
    simp [shape, Shape.parts]
  · split at h
    · obtain ⟨⟨⟨s, v⟩, i⟩, hp, rfl⟩ := List.mem_map.mp h
      exact (List.of_mem_zip (List.fst_mem_of_mem_zipIdx hp)).1
    · cases h
  · obtain ⟨field, hfield, rfl⟩ := List.mem_map.mp h
    exact List.mem_map_of_mem hfield
  · cases h

/-! ## Errors -/

section

variable {s inner : Struct} {v : Json} {e : EncodeError} {m : Metadata}

theorem encode_nullish_eq_error {w : Wrapper} (hw : w = .option ∨ w = .nullable) :
    (Struct.mk (.wrapper w inner) m).encode v = .error e ↔ v ≠ .null ∧ inner.encode v = .error e := by
  rw [encode_nullish inner m hw]
  cases v <;> simp [Json.isNull]

theorem encode_union_eq_error {variants : List Struct} :
    (Struct.mk (.series .union variants) m).encode v = .error e ↔
      e = ⟨[], .noVariant v⟩ ∧ ∀ variant ∈ variants, ∃ e', variant.encode v = .error e' := by
  have hnone : encodeUnion variants v = none ↔
      ∀ variant ∈ variants, ∃ e', variant.encode v = .error e' := by
    induction variants with
    | nil => simp [encodeUnion_nil]
    | cons s rest ih =>
      rw [encodeUnion_cons, List.forall_mem_cons, ← ih]
      cases s.encode v <;> simp
  rw [encode_union, ← hnone]
  cases encodeUnion variants v <;> simp [Encoded.fail, eq_comm]

theorem encodeExcess_eq_error {policy : UnknownKeys} {excess : List (String × Json)}
    {out : Table String Json} :
    policy.encodeExcess excess out = .error e ↔
      policy = .strict ∧ ∃ entry rest, excess = entry :: rest ∧ e = ⟨[], .excessKey entry.1⟩ := by
  cases policy <;> cases excess <;> simp [UnknownKeys.encodeExcess, Encoded.fail, eq_comm]

theorem encodes_fields_iff {fields : List (String × Struct)} {entries out : Table String Json} :
    (∃ out', encodeFields fields entries out = .ok out') ↔
      ∀ field ∈ fields, ∃ w, field.2.encode (input entries field) = .ok w := by
  induction fields generalizing out with
  | nil => simp [encodeFields_nil]
  | cons field rest ih =>
    obtain ⟨name, s⟩ := field
    rw [List.forall_mem_cons]
    simp only [encodeFields_cons, bind_eq_ok, Encoded.under_eq_ok]
    constructor
    · rintro ⟨out', w, hw, hrest⟩
      exact ⟨⟨w, hw⟩, ih.mp ⟨out', hrest⟩⟩
    · rintro ⟨⟨w, hw⟩, hrest⟩
      obtain ⟨out', hout'⟩ := ih.mpr hrest
      exact ⟨out', w, hw, hout'⟩

/-- An object fails at one of its fields or, when they all go well, at the first entry that it does not
declare, if it is strict. -/
theorem encode_object_eq_error {fields : List (String × Struct)} {policy : UnknownKeys}
    {entries : List (String × Json)} :
    (Struct.mk (.object fields policy) m).encode (.object entries) = .error e ↔
      Blames (turnsOfFields fields entries) e ∨
        policy = .strict ∧ (∀ field ∈ fields, ∃ w, field.2.encode (input entries field) = .ok w) ∧
          ∃ entry rest, excess fields entries = entry :: rest ∧ e = ⟨[], .excessKey entry.1⟩ := by
  have hexcess : ∀ out, policy.encodeExcess
      (entries.filter fun entry => !Table.contains entry.1 fields) out = .error e ↔
        policy = .strict ∧ ∃ entry rest, excess fields entries = entry :: rest ∧
          e = ⟨[], .excessKey entry.1⟩ :=
    fun _ => encodeExcess_eq_error
  rw [encode_object, bind_eq_error, encodeFields_eq_error, ← encodes_fields_iff]
  simp only [bind_ok_eq_error, hexcess]
  refine or_congr_right ?_
  constructor
  · rintro ⟨out, hout, hpolicy, hrest⟩
    exact ⟨hpolicy, ⟨out, hout⟩, hrest⟩
  · rintro ⟨hpolicy, ⟨out, hout⟩, hrest⟩
    exact ⟨out, hout, hpolicy, hrest⟩

/-- Whatever fails at its turn, the struct fails with. -/
theorem encode_eq_error_of_blames (h : Blames (s.turns v) e) : s.encode v = .error e := by
  rw [turns.eq_def] at h
  split at h
  · rw [encode_array, bind_ok_eq_error]
    exact encodeAll_eq_error.mpr h
  · rw [encode_dict, bind_ok_eq_error]
    exact encodeEntries_eq_error.mpr h
  · split at h
    · rename_i hlength
      rw [encode_tuple, if_neg (not_not_intro hlength), bind_ok_eq_error]
      exact encodeTuple_eq_error.mpr h
    · exact absurd h (not_blames_nil e)
  · exact encode_object_eq_error.mpr (.inl h)
  · exact absurd h (not_blames_nil e)

/-- A struct that fails passes the value on to a struct that fails, or one of its turns fails, or it
fails right here. -/
theorem cases_of_encode_eq_error (h : s.encode v = .error e) :
    (∃ w inner m, s = .mk (.wrapper w inner) m ∧ (w = .option ∨ w = .nullable) ∧ v ≠ .null ∧
      inner.encode v = .error e) ∨ Blames (s.turns v) e ∨ e.place = [] := by
  have hfail {reason : EncodeReason} (h : Encoded.fail reason = (.error e : Encoded Json)) :
      e.place = [] := by
    obtain rfl := Except.error.inj h
    rfl
  obtain ⟨shape, m⟩ := s
  cases shape with
  | leaf l =>
    rw [encode_leaf, Leaf.encode.eq_def] at h
    split at h
    · exact .inr (.inr (hfail h))
    · split at h
      · cases h
      · exact .inr (.inr (hfail h))
  | wrapper w inner =>
    by_cases hw : w = .option ∨ w = .nullable
    · obtain ⟨hnull, hinner⟩ := (encode_nullish_eq_error hw).mp h
      exact .inl ⟨w, inner, m, rfl, hw, hnull, hinner⟩
    · cases w with
      | option => simp at hw
      | nullable => simp at hw
      | array =>
        cases v with
        | array vs =>
          rw [encode_array, bind_ok_eq_error, encodeAll_eq_error] at h
          exact .inr (.inl h)
        | _ => exact .inr (.inr (hfail h))
      | dict =>
        cases v with
        | object entries =>
          rw [encode_dict, bind_ok_eq_error, encodeEntries_eq_error] at h
          exact .inr (.inl h)
        | _ => exact .inr (.inr (hfail h))
  | series k items =>
    cases k with
    | union =>
      obtain ⟨rfl, -⟩ := encode_union_eq_error.mp h
      exact .inr (.inr rfl)
    | tuple =>
      cases v with
      | array vs =>
        rw [encode_tuple] at h
        by_cases hlength : vs.length = items.length
        · rw [if_neg (not_not_intro hlength), bind_ok_eq_error, encodeTuple_eq_error] at h
          refine .inr (.inl ?_)
          rwa [turns, if_pos hlength]
        · rw [if_pos hlength] at h
          exact .inr (.inr (hfail h))
      | _ => exact .inr (.inr (hfail h))
  | object fields policy =>
    cases v with
    | object entries =>
      rcases encode_object_eq_error.mp h with hturn | ⟨-, -, entry, rest, -, rfl⟩
      · exact .inr (.inl hturn)
      · exact .inr (.inr rfl)
    | _ => exact .inr (.inr (hfail h))

/-- An error is what a walk along its place leads to. -/
theorem encode_eq_error_iff : s.encode v = .error e ↔
    ∃ t x, s.LeadsTo v e.place t x ∧ t.encode x = .fail e.reason := by
  constructor
  · intro h
    induction s using Struct.induction_parts generalizing v e with
    | step s ih =>
      rcases cases_of_encode_eq_error h with
        ⟨w, inner, m, rfl, hw, hnull, hinner⟩ | ⟨turn, hdue, he⟩ | hplace
      · obtain ⟨t, x, hwalk, hfail⟩ := ih inner (by simp [shape, Shape.parts]) hinner
        exact ⟨t, x, .through hw hnull hwalk, hfail⟩
      · obtain ⟨e', hturn, rfl⟩ := mapError_eq_error.mp he
        obtain ⟨t, x, hwalk, hfail⟩ := ih turn.part (part_of_mem_turns hdue.mem) hturn
        exact ⟨t, x, .step hdue hwalk, hfail⟩
      · refine ⟨s, v, hplace ▸ .here s v, ?_⟩
        rw [h, Encoded.fail, ← hplace]
  · rintro ⟨t, x, hwalk, hfail⟩
    obtain ⟨place, reason⟩ := e
    dsimp only at hwalk hfail
    -- The walk backwards: what fails at its end fails at each level before, further out.
    induction hwalk with
    | here => exact hfail
    | through hw hnull _ ih => exact (encode_nullish_eq_error hw).mpr ⟨hnull, ih hfail⟩
    | step hdue _ ih =>
      exact encode_eq_error_of_blames ⟨_, hdue, mapError_eq_error.mpr ⟨_, ih hfail, rfl⟩⟩

end

end Struct

/-- **Errors of encoding point at the culprit.** A struct fails to encode a value just if a walk along
the place of the error leads to a part that refuses what it is given, right there and for the same
reason, and all that comes earlier at each level of the walk is encoded. In a union it is always the
union that refuses, when no variant accepts; and an object refuses an entry that it does not declare
only if it is strict, all its fields are encoded, and that entry is the first of its kind. -/
theorem encode_error_at_culprit (s : Struct) (v : Json) (e : EncodeError) :
    (s.encode v = .error e ↔ ∃ t x, s.LeadsTo v e.place t x ∧ t.encode x = .fail e.reason) ∧
    (∀ variants m, s = .mk (.series .union variants) m →
      (s.encode v = .error e ↔
        e = ⟨[], .noVariant v⟩ ∧ ∀ variant ∈ variants, ∃ e', variant.encode v = .error e')) ∧
    ∀ fields policy m entries key, s = .mk (.object fields policy) m → v = .object entries →
      (s.encode v = .fail (.excessKey key) ↔
        policy = .strict ∧
          (∀ field ∈ fields, ∃ w, field.2.encode (Struct.input entries field) = .ok w) ∧
          ∃ value rest, Struct.excess fields entries = (key, value) :: rest) := by
  refine ⟨Struct.encode_eq_error_iff, ?_, ?_⟩
  · rintro variants m rfl
    exact Struct.encode_union_eq_error
  · rintro fields policy m entries key rfl rfl
    rw [Encoded.fail, Struct.encode_object_eq_error]
    constructor
    · rintro (⟨turn, -, hturn⟩ | ⟨hpolicy, hfields, ⟨key', value⟩, rest, hexcess, hkey⟩)
      · -- What fails at its turn has the step to it in its place.
        obtain ⟨e', -, he⟩ := mapError_eq_error.mp hturn
        cases he
      · obtain rfl : key = key' := by simpa using hkey
        exact ⟨hpolicy, hfields, value, rest, hexcess⟩
    · rintro ⟨hpolicy, hfields, value, rest, hexcess⟩
      exact .inr ⟨hpolicy, hfields, (key, value), rest, hexcess, rfl⟩

/-- Rows of numbers, each with a mark, under a name. -/
def markedRows : Struct := .object [("xs", .array (.tuple [.int, .bool]))]

theorem encode_error_at_culprit_markedRows :
    let v : Json := .object [("xs", .array [.array [.int 1, .bool true], .array [.int 2, .string "no"]])]
    markedRows.encode v = .error ⟨["xs", "1", "1"], .mismatch "Bool" (.string "no")⟩ ∧
      ∃ t x, markedRows.LeadsTo v ["xs", "1", "1"] t x ∧
        t.encode x = .fail (.mismatch "Bool" (.string "no")) := by
  intro v
  have herror : markedRows.encode v = .error ⟨["xs", "1", "1"], .mismatch "Bool" (.string "no")⟩ := rfl
  exact ⟨herror, (encode_error_at_culprit markedRows v _).1.mp herror⟩

end ShapeSchema
