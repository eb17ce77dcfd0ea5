import ShapeSchema.Proofs.Json.Values
import ShapeSchema.Proofs.Pairs
import ShapeSchema.Proofs.Table.Agreement

/-!
# Equality of numbers and values

Equality identifies the two zeros, and values whose objects have their entries in another order. On
well-formed values it is an equivalence.
-/

namespace ShapeSchema

/-! ## Numbers -/

namespace Double

theorem numEq_iff {x y : Double} :
    x.numEq y = true ↔ x = y ∨ x.isZero = true ∧ y.isZero = true := by
  simp [numEq]

theorem numEq_refl (x : Double) : x.numEq x = true := numEq_iff.mpr (.inl rfl)

theorem numEq_symm {x y : Double} (h : x.numEq y = true) : y.numEq x = true :=
  numEq_iff.mpr ((numEq_iff.mp h).imp Eq.symm And.symm)

theorem numEq_trans {x y z : Double} (hxy : x.numEq y = true) (hyz : y.numEq z = true) :
    x.numEq z = true := by
  rcases numEq_iff.mp hxy with rfl | ⟨hx, hy⟩
  · exact hyz
  · rcases numEq_iff.mp hyz with rfl | ⟨-, hz⟩
    · exact hxy
    · exact numEq_iff.mpr (.inr ⟨hx, hz⟩)

end Double

namespace Binary64

variable {x y z : Binary64}

/-- Only the two zeros are equal without being the same; a NaN is equal to itself. -/
theorem same_iff : x.same y = true ↔
    x = y ∨ ∃ a b, x = .finite a ∧ y = .finite b ∧ a.isZero = true ∧ b.isZero = true := by
  cases x <;> cases y
  case finite.finite a b =>
    show a.numEq b = true ↔ _
    rw [Double.numEq_iff]
    simp
  all_goals simp [same, numEq]

theorem same_refl (x : Binary64) : x.same x = true := same_iff.mpr (.inl rfl)

theorem same_symm (h : x.same y = true) : y.same x = true := by
  rcases same_iff.mp h with rfl | ⟨a, b, rfl, rfl, ha, hb⟩
  · exact x.same_refl
  · exact same_iff.mpr (.inr ⟨b, a, rfl, rfl, hb, ha⟩)

theorem same_trans (hxy : x.same y = true) (hyz : y.same z = true) : x.same z = true := by
  rcases same_iff.mp hxy with rfl | ⟨a, b, rfl, rfl, ha, -⟩
  · exact hyz
  · rcases same_iff.mp hyz with rfl | ⟨_, c, -, rfl, -, hc⟩
    · exact hxy
    · exact same_iff.mpr (.inr ⟨a, c, rfl, rfl, ha, hc⟩)

end Binary64

namespace Number

variable {k m n : Number}

/-- So it is for JSON numbers; in particular no whole number equals a floating point one. -/
theorem same_iff : m.same n = true ↔
    m = n ∨ ∃ a b, m = .float a ∧ n = .float b ∧ a.isZero = true ∧ b.isZero = true := by
  cases m <;> cases n
  case float.float a b =>
    show a.numEq b = true ↔ _
    rw [Double.numEq_iff]
    simp
  all_goals simp [same]

theorem same_refl (n : Number) : n.same n = true := same_iff.mpr (.inl rfl)

theorem same_symm (h : m.same n = true) : n.same m = true := by
  rcases same_iff.mp h with rfl | ⟨a, b, rfl, rfl, ha, hb⟩
  · exact m.same_refl
  · exact same_iff.mpr (.inr ⟨b, a, rfl, rfl, hb, ha⟩)

theorem same_trans (hkm : k.same m = true) (hmn : m.same n = true) : k.same n = true := by
  rcases same_iff.mp hkm with rfl | ⟨a, b, rfl, rfl, ha, -⟩
  · exact hmn
  · rcases same_iff.mp hmn with rfl | ⟨_, c, -, rfl, -, hc⟩
    · exact hkm
    · exact same_iff.mpr (.inr ⟨a, c, rfl, rfl, ha, hc⟩)

end Number

/-! ## Values -/

namespace Json

/-- The two values are equal. -/
abbrev Same (v w : Json) : Prop := v.same w = true

theorem sameItems_iff {xs ys : List Json} : sameItems xs ys = true ↔ List.Forall₂ Same xs ys := by
  induction xs generalizing ys with
  | nil => cases ys <;> simp [sameItems]
  | cons x xs ih => cases ys <;> simp [sameItems, ih]

theorem sameEntries_iff {xs ys : Table String Json} :
    sameEntries xs ys = true ↔
      ∀ entry ∈ xs, ∃ w, Table.find? entry.1 ys = some w ∧ entry.2.Same w := by
  induction xs with
  | nil => simp [sameEntries]
  | cons entry rest ih =>
    rw [sameEntries, Bool.and_eq_true, ih, List.forall_mem_cons]
    cases Table.find? entry.1 ys <;> simp

/-- Equality case by case: only values of one kind are equal. -/
theorem same_iff {v w : Json} : v.Same w ↔
    match v, w with
    | .null, .null => True
    | .bool a, .bool b => a = b
    | .number m, .number n => m.same n = true
    | .string s, .string t => s = t
    | .array xs, .array ys => List.Forall₂ Same xs ys
    | .object xs, .object ys => xs.length = ys.length ∧ sameEntries xs ys = true
    | _, _ => False := by
  cases v <;> cases w <;> simp [Same, same, ← sameItems_iff]

theorem same_null_iff {w : Json} : Json.null.Same w ↔ w = .null := by
  cases w <;> simp [same_iff]

theorem same_bool_iff {b : Bool} {w : Json} : (Json.bool b).Same w ↔ w = .bool b := by
  cases w <;> simp [same_iff, @eq_comm _ b]

theorem same_number_iff {m : Number} {w : Json} :
    (Json.number m).Same w ↔ ∃ n, w = .number n ∧ m.same n = true := by
  cases w <;> simp [same_iff]

theorem same_string_iff {s : String} {w : Json} : (Json.string s).Same w ↔ w = .string s := by
  cases w <;> simp [same_iff, @eq_comm _ s]

theorem same_array_iff {xs : List Json} {w : Json} :
    (Json.array xs).Same w ↔ ∃ ys, w = .array ys ∧ List.Forall₂ Same xs ys := by
  cases w <;> simp [same_iff]

theorem same_object_iff {xs : Table String Json} {w : Json} (hxs : (Json.object xs).WellFormed)
    (hw : w.WellFormed) :
    (Json.object xs).Same w ↔ ∃ ys, w = .object ys ∧ Table.Agree (fun _ => Same) xs ys := by
  cases w with
  | object ys =>
    have hentries : Table.Agree (fun _ => Same) xs ys ↔
        xs.length = ys.length ∧ sameEntries xs ys = true := by
      rw [Table.agree_iff (wellFormed_object.mp hxs).1 (wellFormed_object.mp hw).1, sameEntries_iff]
    simp [same_iff, hentries]
  | _ => simp [same_iff]

/-- Objects with distinct keys are equal if they agree as tables. -/
theorem same_object {xs ys : Table String Json} (hxs : Table.Distinct xs) (hys : Table.Distinct ys)
    (h : Table.Agree (fun _ => Same) xs ys) : (Json.object xs).Same (.object ys) := by
  rw [Table.agree_iff hxs hys, ← sameEntries_iff] at h
  exact same_iff.mpr h

theorem same_refl {v : Json} (hv : v.WellFormed) : v.Same v := by
  induction v using Json.induction with
  | null => rfl
  | bool b => exact same_bool_iff.mpr rfl
  | number n => exact n.same_refl
  | string s => exact same_string_iff.mpr rfl
  | array items ih =>
    refine same_array_iff.mpr ⟨items, rfl, List.forall₂_same.mpr fun v hmem => ?_⟩
    exact ih v hmem (wellFormed_array.mp hv v hmem)
  | object entries ih =>
    obtain ⟨hdistinct, hentries⟩ := wellFormed_object.mp hv
    refine same_object hdistinct hdistinct (Table.agree_refl hdistinct fun entry hmem => ?_)
    exact ih entry hmem (hentries entry hmem)

/-- The order of entries does not matter. -/
theorem same_of_perm {xs ys : Table String Json} (hxs : (Json.object xs).WellFormed)
    (h : xs.Perm ys) : (Json.object xs).Same (.object ys) := by
  obtain ⟨hdistinct, hvalues⟩ := wellFormed_object.mp hxs
  exact same_object hdistinct ((h.map Prod.fst).nodup_iff.mp hdistinct)
    (Table.agree_of_perm h hdistinct fun entry hentry => same_refl (hvalues entry hentry))

theorem same_symm {v w : Json} (hv : v.WellFormed) (hw : w.WellFormed) (h : v.Same w) : w.Same v := by
  induction v using Json.induction generalizing w with
  | null =>
    obtain rfl := same_null_iff.mp h
    exact h
  | bool b =>
    obtain rfl := same_bool_iff.mp h
    exact h
  | number m =>
    obtain ⟨n, rfl, hmn⟩ := same_number_iff.mp h
    exact Number.same_symm hmn
  | string s =>
    obtain rfl := same_string_iff.mp h
    exact h
  | array xs ih =>
    obtain ⟨ys, rfl, hitems⟩ := same_array_iff.mp h
    have hxs := wellFormed_array.mp hv
    have hys := wellFormed_array.mp hw
    refine same_array_iff.mpr ⟨xs, rfl, ((forall₂_members hitems).imp ?_).flip⟩
    rintro x y ⟨hx, hy, hxy⟩
    exact ih x hx (hxs x hx) (hys y hy) hxy
  | object xs ih =>
    obtain ⟨ys, rfl, hentries⟩ := (same_object_iff hv hw).mp h
    have hxs := (wellFormed_object.mp hv).2
    have hys := (wellFormed_object.mp hw).2
    refine (same_object_iff hw hv).mpr ⟨xs, rfl, hentries.flip.imp fun k y x hy hx hxy => ?_⟩
    have hmem := Table.mem_of_find? hx
    exact ih _ hmem (hxs _ hmem) (hys _ (Table.mem_of_find? hy)) hxy

theorem same_trans {u v w : Json} (hu : u.WellFormed) (hv : v.WellFormed) (hw : w.WellFormed)
    (huv : u.Same v) (hvw : v.Same w) : u.Same w := by
  induction u using Json.induction generalizing v w with
  | null =>
    obtain rfl := same_null_iff.mp huv
    exact hvw
  | bool b =>
    obtain rfl := same_bool_iff.mp huv
    exact hvw
  | number k =>
    obtain ⟨m, rfl, hkm⟩ := same_number_iff.mp huv
    obtain ⟨n, rfl, hmn⟩ := same_number_iff.mp hvw
    exact same_number_iff.mpr ⟨n, rfl, Number.same_trans hkm hmn⟩
  | string s =>
    obtain rfl := same_string_iff.mp huv
    exact hvw
  | array xs ih =>
    obtain ⟨ys, rfl, hxys⟩ := same_array_iff.mp huv
    obtain ⟨zs, rfl, hyzs⟩ := same_array_iff.mp hvw
    have hxs := wellFormed_array.mp hu
    have hys := wellFormed_array.mp hv
    have hzs := wellFormed_array.mp hw
    refine same_array_iff.mpr ⟨zs, rfl,
      forall₂_trans (forall₂_members hxys) (forall₂_members hyzs) ?_⟩
    rintro x y z ⟨hx, hy, hxy⟩ ⟨-, hz, hyz⟩
    exact ih x hx (hxs x hx) (hys y hy) (hzs z hz) hxy hyz
  | object xs ih =>
    obtain ⟨ys, rfl, hxys⟩ := (same_object_iff hu hv).mp huv
    obtain ⟨zs, rfl, hyzs⟩ := (same_object_iff hv hw).mp hvw
    have hxs := (wellFormed_object.mp hu).2
    have hys := (wellFormed_object.mp hv).2
    have hzs := (wellFormed_object.mp hw).2
    refine (same_object_iff hu hw).mpr
      ⟨zs, rfl, hxys.trans hyzs fun k x y z hx hy hz hxy hyz => ?_⟩
    have hmem := Table.mem_of_find? hx
    exact ih _ hmem (hxs _ hmem) (hys _ (Table.mem_of_find? hy)) (hzs _ (Table.mem_of_find? hz))
      hxy hyz

/-- What equal values have in common on the outside: they are the same scalar, equal numbers, two
arrays or two objects. -/
inductive Alike : Json → Json → Prop
  | null : Alike .null .null
  | bool (b : Bool) : Alike (.bool b) (.bool b)
  | number {m n : Number} (h : m.same n = true) : Alike (.number m) (.number n)
  | string (s : String) : Alike (.string s) (.string s)
  | array (xs ys : List Json) : Alike (.array xs) (.array ys)
  | object (xs ys : List (String × Json)) : Alike (.object xs) (.object ys)

theorem alike_of_same {v w : Json} (h : v.Same w) : Alike v w := by
  cases v with
  | null =>
    obtain rfl := same_null_iff.mp h
    exact .null
  | bool b =>
    obtain rfl := same_bool_iff.mp h
    exact .bool b
  | number m =>
    obtain ⟨n, rfl, hmn⟩ := same_number_iff.mp h
    exact .number hmn
  | string s =>
    obtain rfl := same_string_iff.mp h
    exact .string s
  | array xs =>
    obtain ⟨ys, rfl, -⟩ := same_array_iff.mp h
    exact .array xs ys
  | object xs =>
    cases w with
    | object ys => exact .object xs ys
    | _ => cases h

theorem Alike.isNull_eq {v w : Json} (h : v.Alike w) : v.isNull = w.isNull := by
  cases h <;> rfl

/-! ## Equalities that do not see the order of keys -/

/-- An equality of values, finer than `Same` or not, for which arrays are equal item by item and objects
key by key. -/
structure KeyBlind (R : Json → Json → Prop) : Prop where
  alike {v w : Json} : R v w → v.Alike w
  null : R .null .null
  symm {v w : Json} : v.WellFormed → w.WellFormed → R v w → R w v
  array {xs ys : List Json} : R (.array xs) (.array ys) ↔ List.Forall₂ R xs ys
  object {xs ys : Table String Json} : Table.Distinct xs → Table.Distinct ys →
    (R (.object xs) (.object ys) ↔ Table.Agree (fun _ => R) xs ys)

namespace KeyBlind

variable {R : Json → Json → Prop} (hR : KeyBlind R)

include hR

theorem of_array {xs : List Json} {w : Json} (h : R (.array xs) w) :
    ∃ ys, w = .array ys ∧ List.Forall₂ R xs ys := by
  cases hR.alike h with
  | array _ ys => exact ⟨ys, rfl, hR.array.mp h⟩

theorem of_object {xs : Table String Json} {w : Json} (hxs : (Json.object xs).WellFormed)
    (hw : w.WellFormed) (h : R (.object xs) w) :
    ∃ ys, w = .object ys ∧ Table.Agree (fun _ => R) xs ys := by
  cases hR.alike h with
  | object _ ys =>
    exact ⟨ys, rfl, (hR.object (wellFormed_object.mp hxs).1 (wellFormed_object.mp hw).1).mp h⟩

end KeyBlind

theorem keyBlind_same : KeyBlind Same where
  alike := alike_of_same
  null := rfl
  symm := same_symm
  array := by simp [same_iff]
  object hxs hys := by rw [Table.agree_iff hxs hys, ← sameEntries_iff, same_iff]

end Json

end ShapeSchema
