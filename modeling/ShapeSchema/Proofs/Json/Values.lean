import ShapeSchema.Json.Basic

/-!
# Induction over JSON values

The induction that follows the items and entries of a value, well-formedness by items and entries,
how deeply a value is nested, and the floating point numbers in it.
-/

namespace ShapeSchema.Json

/-- Induction along the items and entries of a value. -/
@[elab_as_elim]
theorem induction {motive : Json → Prop}
    (null : motive .null)
    (bool : ∀ b, motive (.bool b))
    (number : ∀ n, motive (.number n))
    (string : ∀ s, motive (.string s))
    (array : ∀ items, (∀ v ∈ items, motive v) → motive (.array items))
    (object : ∀ entries, (∀ entry ∈ entries, motive entry.2) → motive (.object entries))
    (v : Json) : motive v :=
  Json.rec (motive_1 := motive)
    (motive_2 := fun items => ∀ v ∈ items, motive v)
    (motive_3 := fun entries => ∀ entry ∈ entries, motive entry.2)
    (motive_4 := fun entry => motive entry.2)
    null bool number string array object
    (by simp)
    (fun _ _ ih ihs => List.forall_mem_cons.mpr ⟨ih, ihs⟩)
    (by simp)
    (fun _ _ ih ihs => List.forall_mem_cons.mpr ⟨ih, ihs⟩)
    (fun _ _ ih => ih)
    v

theorem wellFormedItems_iff {items : List Json} :
    WellFormedItems items ↔ ∀ v ∈ items, v.WellFormed := by
  induction items with
  | nil => exact iff_of_true trivial (by simp)
  | cons v rest ih =>
    rw [List.forall_mem_cons, ← ih]
    rfl

theorem wellFormedEntries_iff {entries : List (String × Json)} :
    WellFormedEntries entries ↔ ∀ entry ∈ entries, entry.2.WellFormed := by
  induction entries with
  | nil => exact iff_of_true trivial (by simp)
  | cons entry rest ih =>
    rw [List.forall_mem_cons, ← ih]
    rfl

theorem wellFormed_array {items : List Json} :
    (Json.array items).WellFormed ↔ ∀ v ∈ items, v.WellFormed :=
  wellFormedItems_iff

theorem wellFormed_object {entries : List (String × Json)} :
    (Json.object entries).WellFormed ↔
      Table.Distinct entries ∧ ∀ entry ∈ entries, entry.2.WellFormed :=
  and_congr_right fun _ => wellFormedEntries_iff

/-! ## Depth -/

mutual

/-- How many arrays and objects stand inside each other, the value itself included. -/
def depth : Json → Nat
  | .array items => depthOfItems items + 1
  | .object entries => depthOfEntries entries + 1
  | _ => 0
termination_by structural v => v

/-- The depth of the deepest item. -/
def depthOfItems : List Json → Nat
  | [] => 0
  | v :: rest => max (depth v) (depthOfItems rest)
termination_by structural items => items

/-- The depth of the deepest entry. -/
def depthOfEntries : List (String × Json) → Nat
  | [] => 0
  | (_, v) :: rest => max (depth v) (depthOfEntries rest)
termination_by structural entries => entries

end

theorem depthOfItems_le {items : List Json} {n : Nat} :
    depthOfItems items ≤ n ↔ ∀ v ∈ items, v.depth ≤ n := by
  induction items with
  | nil => exact iff_of_true (Nat.zero_le n) (by simp)
  | cons v rest ih =>
    rw [List.forall_mem_cons, ← ih]
    exact Nat.max_le

theorem depthOfEntries_le {entries : List (String × Json)} {n : Nat} :
    depthOfEntries entries ≤ n ↔ ∀ entry ∈ entries, entry.2.depth ≤ n := by
  induction entries with
  | nil => exact iff_of_true (Nat.zero_le n) (by simp)
  | cons entry rest ih =>
    rw [List.forall_mem_cons, ← ih]
    exact Nat.max_le

theorem depth_array_le {items : List Json} {n : Nat} :
    (Json.array items).depth ≤ n + 1 ↔ ∀ v ∈ items, v.depth ≤ n :=
  Nat.succ_le_succ_iff.trans depthOfItems_le

theorem depth_object_le {entries : List (String × Json)} {n : Nat} :
    (Json.object entries).depth ≤ n + 1 ↔ ∀ entry ∈ entries, entry.2.depth ≤ n :=
  Nat.succ_le_succ_iff.trans depthOfEntries_le

theorem depth_item_lt {items : List Json} {v : Json} (h : v ∈ items) :
    v.depth < (Json.array items).depth :=
  Nat.lt_succ_of_le (depthOfItems_le.mp (Nat.le_refl _) v h)

theorem depth_entry_lt {entries : List (String × Json)} {entry : String × Json}
    (h : entry ∈ entries) : entry.2.depth < (Json.object entries).depth :=
  Nat.lt_succ_of_le (depthOfEntries_le.mp (Nat.le_refl _) entry h)

theorem depth_object_pos {entries : List (String × Json)} : 0 < (Json.object entries).depth :=
  Nat.succ_pos _

/-! ## Floating point numbers -/

mutual

/-- The floating point numbers in the value, in their order. -/
def floats : Json → List Double
  | .number (.float x) => [x]
  | .array items => floatsOfItems items
  | .object entries => floatsOfEntries entries
  | _ => []
termination_by structural v => v

/-- The floating point numbers in the items. -/
def floatsOfItems : List Json → List Double
  | [] => []
  | v :: rest => floats v ++ floatsOfItems rest
termination_by structural items => items

/-- The floating point numbers in the entries. -/
def floatsOfEntries : List (String × Json) → List Double
  | [] => []
  | (_, v) :: rest => floats v ++ floatsOfEntries rest
termination_by structural entries => entries

end

section

variable {P : Double → Prop}

theorem forall_floatsOfItems {items : List Json} :
    (∀ x ∈ floatsOfItems items, P x) ↔ ∀ v ∈ items, ∀ x ∈ v.floats, P x := by
  induction items with
  | nil => exact iff_of_true (by simp [floatsOfItems]) (by simp)
  | cons v rest ih => rw [floatsOfItems, List.forall_mem_append, List.forall_mem_cons, ih]

theorem forall_floatsOfEntries {entries : List (String × Json)} :
    (∀ x ∈ floatsOfEntries entries, P x) ↔ ∀ entry ∈ entries, ∀ x ∈ entry.2.floats, P x := by
  induction entries with
  | nil => exact iff_of_true (by simp [floatsOfEntries]) (by simp)
  | cons entry rest ih => rw [floatsOfEntries, List.forall_mem_append, List.forall_mem_cons, ih]

theorem forall_floats_array {items : List Json} :
    (∀ x ∈ (Json.array items).floats, P x) ↔ ∀ v ∈ items, ∀ x ∈ v.floats, P x :=
  forall_floatsOfItems

theorem forall_floats_object {entries : List (String × Json)} :
    (∀ x ∈ (Json.object entries).floats, P x) ↔ ∀ entry ∈ entries, ∀ x ∈ entry.2.floats, P x :=
  forall_floatsOfEntries

end

end ShapeSchema.Json
