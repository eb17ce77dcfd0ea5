import ShapeSchema.Struct.WellFormed

/-!
# The parts of a struct

The structs directly inside a struct, those inside it at any depth, and the induction that follows
them: a case for each of the four families of shapes, with the inner structs as hypotheses.
-/

namespace ShapeSchema

/-- What stands at the places of the inner structs, in order. -/
def Shape.parts {α : Type} : Shape α → List α
  | .leaf _ => []
  | .wrapper _ inner => [inner]
  | .series _ items => items
  | .object fields _ => fields.map Prod.snd

namespace Struct

/-- The struct itself, and every struct inside it at any depth. -/
inductive Within : Struct → Struct → Prop
  | refl (s : Struct) : Within s s
  | step {t part s : Struct} (mem : part ∈ s.shape.parts) (inner : Within t part) : Within t s

/-- Induction along the parts of a struct. -/
@[elab_as_elim]
theorem induction {motive : Struct → Prop}
    (leaf : ∀ l m, motive (.mk (.leaf l) m))
    (wrapper : ∀ w inner m, motive inner → motive (.mk (.wrapper w inner) m))
    (series : ∀ k items m, (∀ s ∈ items, motive s) → motive (.mk (.series k items) m))
    (object : ∀ fields policy m, (∀ field ∈ fields, motive field.2) →
      motive (.mk (.object fields policy) m))
    (s : Struct) : motive s :=
  Struct.rec (motive_1 := motive)
    (motive_2 := fun shape => ∀ m, motive (.mk shape m))
    (motive_3 := fun items => ∀ s ∈ items, motive s)
    (motive_4 := fun fields => ∀ field ∈ fields, motive field.2)
    (motive_5 := fun field => motive field.2)
    (fun _ m ih => ih m)
    leaf
    (fun w inner ih m => wrapper w inner m ih)
    (fun k items ih m => series k items m ih)
    (fun fields policy ih m => object fields policy m ih)
    (by simp)
    (fun _ _ ih ihs => List.forall_mem_cons.mpr ⟨ih, ihs⟩)
    (by simp)
    (fun _ _ ih ihs => List.forall_mem_cons.mpr ⟨ih, ihs⟩)
    (fun _ _ ih => ih)
    s

/-- The same induction with one case: what holds of a struct if it holds of its parts. -/
@[elab_as_elim]
theorem induction_parts {motive : Struct → Prop}
    (step : ∀ s : Struct, (∀ part ∈ s.shape.parts, motive part) → motive s) (s : Struct) :
    motive s := by
  induction s using Struct.induction with
  | leaf l m => exact step _ fun part hpart => nomatch hpart
  | wrapper w inner m ih => exact step _ (by simpa [shape, Shape.parts] using ih)
  | series k items m ih => exact step _ ih
  | object fields policy m ih =>
    exact step _ fun part hpart => by
      obtain ⟨field, hfield, rfl⟩ := List.mem_map.mp hpart
      exact ih field hfield

theorem Within.trans {r s t : Struct} (hrs : Within r s) (hst : Within s t) : Within r t := by
  induction hst with
  | refl => exact hrs
  | step mem _ ih => exact .step mem ih

theorem Within.of_part {part s : Struct} (mem : part ∈ s.shape.parts) : Within part s :=
  .step mem (.refl part)

/-- What holds at every node of a struct: the predicate holds of the node itself and at every node
of each of its parts. -/
theorem forall_within {P : Struct → Prop} {s : Struct} :
    (∀ t, Within t s → P t) ↔ P s ∧ ∀ part ∈ s.shape.parts, ∀ t, Within t part → P t := by
  constructor
  · intro h
    exact ⟨h s (.refl s), fun part mem t ht => h t (ht.trans (.of_part mem))⟩
  · rintro ⟨hs, hparts⟩ t ht
    cases ht with
    | refl => exact hs
    | step mem inner => exact hparts _ mem t inner

/-! ## Well-formedness by nodes -/

theorem wellFormedItems_iff {items : List Struct} :
    WellFormedItems items ↔ ∀ s ∈ items, s.WellFormed := by
  induction items with
  | nil => simp [WellFormedItems]
  | cons s rest ih => simp [WellFormedItems, ih]

theorem wellFormedFields_iff {fields : List (String × Struct)} :
    WellFormedFields fields ↔ ∀ field ∈ fields, field.2.WellFormed := by
  induction fields with
  | nil => simp [WellFormedFields]
  | cons field rest ih =>
    rw [List.forall_mem_cons, ← ih]
    rfl

/-- The parts of a well-formed struct are well-formed. -/
theorem WellFormed.part {s part : Struct} (h : s.WellFormed) (mem : part ∈ s.shape.parts) :
    part.WellFormed := by
  obtain ⟨shape, m⟩ := s
  cases shape with
  | leaf l => simp [Struct.shape, Shape.parts] at mem
  | wrapper w inner =>
    obtain rfl : part = inner := by simpa [Struct.shape, Shape.parts] using mem
    exact h.1
  | series k items => exact wellFormedItems_iff.mp h.1 part mem
  | object fields policy =>
    obtain ⟨field, hf, rfl⟩ := List.mem_map.mp mem
    exact wellFormedFields_iff.mp h.2.1 field hf

theorem WellFormed.within {s t : Struct} (hs : s.WellFormed) (ht : Within t s) : t.WellFormed := by
  induction ht with
  | refl => exact hs
  | step mem _ ih => exact ih (hs.part mem)

/-- The metadata of a well-formed struct is well-formed. -/
theorem WellFormed.metadata {s : Struct} (h : s.WellFormed) : s.metadata.WellFormed := by
  obtain ⟨shape, m⟩ := s
  cases shape with
  | leaf l => exact h.2
  | wrapper w inner => exact h.2
  | series k items => exact h.2
  | object fields policy => exact h.2.2

end Struct

end ShapeSchema
