import ShapeSchema.Proofs.Schema.Meaning

/-!
# Everything that is wrong with a struct

A conversion stops at the first obstacle and builds its place on the way out. `Struct.violations`
is a walk over the whole struct that stops nowhere and carries the place along; the conversion
fails exactly with the first thing the walk finds.
-/

namespace ShapeSchema

/-- Whether there is a schema for the leaf. -/
def Leaf.hasSchema : Leaf → Bool
  | .date | .literal .emptyOption | .literal .nan => false
  | .literal (.float (.infinite _)) | .literal (.float .nan) => false
  | _ => true

theorem Leaf.hasSchema_iff (l : Leaf) : l.hasSchema = l.fragment?.isSome := by
  cases l with
  | literal value =>
    cases value with
    | float x => cases x <;> rfl
    | _ => rfl
  | _ => rfl

/-- What is said of a series with an item that may be absent. -/
def Series.obstacle : Series → Obstacle
  | .tuple => .optionalItem .array
  | .union => .optionalItem .union

namespace Struct

/-- What is wrong with the default of the struct itself. -/
def defaultViolations (s : Struct) (place : Place) : List ConversionError :=
  match s.defaultValue with
  | none => []
  | some value =>
    match s.encode value with
    | .ok _ => []
    | .error e => [⟨place, .badDefault e.message⟩]

/-- What is wrong with putting the struct where it may not be absent. -/
def optionalViolations (s : Struct) (place : Place) (obstacle : Obstacle) : List ConversionError :=
  if s.isOptional then [⟨place, obstacle⟩] else []

mutual

/-- Everything that is wrong with a struct at this depth and place: it is too deep, and not looked
into, or there is something wrong with its shape, and then with its default. -/
def violations (limit : Nat) : Struct → Nat → Place → List ConversionError
  | .mk shape m, depth, place =>
    if limit < depth then [⟨place, .tooDeep limit⟩]
    else violationsOfShape limit shape (depth + 1) place ++ (Struct.mk shape m).defaultViolations place
termination_by structural s => s

/-- Everything that is wrong with a shape. What is wrong with a struct inside comes before its being
optional where it may not be. -/
def violationsOfShape (limit : Nat) : Shape Struct → Nat → Place → List ConversionError
  | .leaf l, _, place => if l.hasSchema then [] else [⟨place, .unsupported l.name⟩]
  | .wrapper w inner, depth, place =>
    violations limit inner depth place ++ inner.optionalViolations place w.obstacle
  | .series k items, depth, place => violationsOfItems limit k items 0 depth place
  | .object fields _, depth, place => violationsOfFields limit fields depth place
termination_by structural shape => shape

/-- Everything that is wrong with the items of a series, from the given position on. -/
def violationsOfItems (limit : Nat) (k : Series) :
    List Struct → Nat → Nat → Place → List ConversionError
  | [], _, _, _ => []
  | s :: rest, position, depth, place =>
    violations limit s depth (place ++ [Nat.repr position]) ++
      s.optionalViolations (place ++ [Nat.repr position]) k.obstacle ++
      violationsOfItems limit k rest (position + 1) depth place
termination_by structural items => items

/-- Everything that is wrong with the fields of an object. -/
def violationsOfFields (limit : Nat) :
    List (String × Struct) → Nat → Place → List ConversionError
  | [], _, _ => []
  | (name, s) :: rest, depth, place =>
    violations limit s depth (place ++ [name]) ++ violationsOfFields limit rest depth place
termination_by structural fields => fields

end

section

variable (limit : Nat) (k : Series) (s inner : Struct) (rest items : List Struct)
  (name : String) (fields : List (String × Struct)) (policy : UnknownKeys) (position depth : Nat)
  (place : Place)

theorem violationsOfShape_leaf (l : Leaf) : violationsOfShape limit (.leaf l) depth place =
    if l.hasSchema then [] else [⟨place, .unsupported l.name⟩] := rfl

theorem violationsOfShape_wrapper (w : Wrapper) :
    violationsOfShape limit (.wrapper w inner) depth place =
      inner.violations limit depth place ++ inner.optionalViolations place w.obstacle := rfl

theorem violationsOfShape_series : violationsOfShape limit (.series k items) depth place =
    violationsOfItems limit k items 0 depth place := rfl

theorem violationsOfShape_object : violationsOfShape limit (.object fields policy) depth place =
    violationsOfFields limit fields depth place := rfl

theorem violationsOfItems_cons : violationsOfItems limit k (s :: rest) position depth place =
    s.violations limit depth (place ++ [Nat.repr position]) ++
      s.optionalViolations (place ++ [Nat.repr position]) k.obstacle ++
      violationsOfItems limit k rest (position + 1) depth place := rfl

theorem violationsOfFields_cons : violationsOfFields limit ((name, s) :: fields) depth place =
    s.violations limit depth (place ++ [name]) ++
      violationsOfFields limit fields depth place := rfl

end

end Struct

/-! ## First violations -/

/-- The outcome of a computation at this place is what the violations say: it fails with the first,
and succeeds if there is none. -/
def Stops {α : Type} (place : Place) (outcome : Except ConversionError α)
    (found : List ConversionError) : Prop :=
  match outcome with
  | .ok _ => found = []
  | .error e => found.head? = some ⟨place ++ e.place, e.obstacle⟩

namespace Stops

variable {α β : Type} {place : Place} {found rest : List ConversionError}

theorem ok (a : α) : Stops place (.ok a) [] := rfl

theorem here (obstacle : Obstacle) :
    Stops place (.error (.here obstacle) : Except ConversionError α) [⟨place, obstacle⟩] := by
  simp [Stops, ConversionError.here]

/-- One computation after the other: the violations of the second come behind those of the first. -/
theorem bind {x : Except ConversionError α} {f : α → Except ConversionError β}
    (hx : Stops place x found) (hf : ∀ a, x = .ok a → Stops place (f a) rest) :
    Stops place (x >>= f) (found ++ rest) := by
  cases x with
  | ok a =>
    obtain rfl : found = [] := hx
    exact hf a rfl
  | error e =>
    show (found ++ rest).head? = _
    rw [List.head?_append, show found.head? = _ from hx, Option.some_or]

/-- A last step that does not fail adds nothing. -/
theorem bind_ok {x : Except ConversionError α} {f : α → Except ConversionError β}
    (hx : Stops place x found) (hf : ∀ a, ∃ b, f a = .ok b) : Stops place (x >>= f) found := by
  cases x with
  | ok a =>
    obtain ⟨b, hb⟩ := hf a
    show Stops place (f a) found
    rw [hb]
    exact hx
  | error e => exact hx

theorem under {step : String} {x : Except ConversionError α} (hx : Stops (place ++ [step]) x found) :
    Stops place (x.mapError (.under step)) found := by
  cases x with
  | ok a => exact hx
  | error e =>
    show found.head? = some ⟨place ++ step :: e.place, e.obstacle⟩
    rw [List.append_cons]
    exact hx

/-- At the root, the violations say all about the outcome. -/
theorem error_iff {x : Except ConversionError α} (hx : Stops [] x found) (e : ConversionError) :
    x = .error e ↔ found.head? = some e := by
  cases x with
  | ok a =>
    obtain rfl : found = [] := hx
    simp
  | error e' =>
    rw [show found.head? = _ from hx]
    simp

theorem ok_iff {x : Except ConversionError α} (hx : Stops place x found) :
    (∃ a, x = .ok a) ↔ found = [] := by
  cases x with
  | ok a => exact ⟨fun _ => hx, fun _ => ⟨a, rfl⟩⟩
  | error e =>
    constructor
    · intro h
      obtain ⟨a, ha⟩ := h
      cases ha
    · rintro rfl
      cases hx

end Stops

namespace Struct

variable {limit depth : Nat} {place : Place}

theorem stops_encodedDefault (s : Struct) : Stops place s.encodedDefault (s.defaultViolations place) := by
  rw [encodedDefault, defaultViolations]
  cases s.defaultValue with
  | none => exact .ok none
  | some value =>
    dsimp only
    cases s.encode value with
    | ok w => exact .ok (some w)
    | error e => exact .here _

/-- If the shape stops at its first violation, then so does the struct. -/
theorem stops_lower_of_shape {s : Struct}
    (h : Stops place (lowerShape limit s.shape (depth + 1)).result
      (violationsOfShape limit s.shape (depth + 1) place)) :
    Stops place (s.lower limit depth).result (s.violations limit depth place) := by
  rw [result_lower]
  obtain ⟨shape, m⟩ := s
  have hviolations : (Struct.mk shape m).violations limit depth place =
      if limit < depth then [⟨place, .tooDeep limit⟩]
      else violationsOfShape limit shape (depth + 1) place ++
        (Struct.mk shape m).defaultViolations place := rfl
  rw [hviolations]
  split
  · -- Too deep: neither side looks at the shape or at the default.
    exact .here _
  · exact h.bind fun base _ => (stops_encodedDefault _).bind_ok fun encoded => ⟨_, rfl⟩

/-- The check that follows a struct inside, made on its node, says what can be seen from the struct
itself. -/
theorem stops_required {s : Struct} {node : Node} (hnode : (s.lower limit depth).result = .ok node)
    {obstacle : Obstacle} {check : Except ConversionError α}
    (hcheck : check = if node.required then .ok a else .error (.here obstacle)) :
    Stops place check (s.optionalViolations place obstacle) := by
  rw [hcheck, lower_required hnode, optionalViolations]
  cases s.isOptional
  · exact .ok a
  · exact .here obstacle

theorem result_item (k : Series) (node : Node) :
    (node.item k.container).result =
      if node.required then .ok node.schema else .error (.here k.obstacle) := by
  rw [Node.item]
  cases node.required <;> cases k <;> rfl

theorem stops_items {k : Series} {items : List Struct} {position : Nat}
    (h : ∀ s ∈ items, ∀ place, Stops place (Struct.lower limit s depth).result
      (s.violations limit depth place)) :
    Stops place (lowerItems limit k.container items position depth).result
      (violationsOfItems limit k items position depth place) := by
  induction items generalizing position with
  | nil => exact .ok []
  | cons s rest ih =>
    -- The item and its check fail under the same step, and both before the rest.
    simp only [lowerItems_cons, violationsOfItems_cons, Traced.result_bind, Traced.result_under]
    refine Stops.bind (Stops.under (Stops.bind (h s (by simp) _) fun node hnode => ?_)) fun f _ => ?_
    · exact stops_required hnode (result_item k node)
    · exact (ih fun s hs => h s (by simp [hs])).bind_ok fun fs => ⟨_, rfl⟩

theorem stops_fields {fields : List (String × Struct)}
    (h : ∀ field ∈ fields, ∀ place, Stops place (Struct.lower limit field.2 depth).result
      (field.2.violations limit depth place)) :
    Stops place (lowerFields limit fields depth).result
      (violationsOfFields limit fields depth place) := by
  induction fields with
  | nil => exact .ok []
  | cons field rest ih =>
    obtain ⟨name, s⟩ := field
    simp only [lowerFields_cons, violationsOfFields_cons, Traced.result_bind, Traced.result_under]
    refine Stops.bind (Stops.under (h (name, s) (by simp) _)) fun node _ => ?_
    exact (ih fun field hfield => h field (by simp [hfield])).bind_ok fun nodes => ⟨_, rfl⟩

/-- **Lowering stops at the first violation.** -/
theorem stops_lower (s : Struct) : ∀ depth place,
    Stops place (s.lower limit depth).result (s.violations limit depth place) := by
  -- For all places at once: the walk carries the place down, the conversion builds it on the way up.
  induction s using Struct.induction with
  | leaf l m =>
    intro depth place
    refine stops_lower_of_shape ?_
    rw [Struct.shape, result_leaf, violationsOfShape_leaf, l.hasSchema_iff]
    cases l.fragment? with
    | none => exact .here _
    | some f => exact .ok _
  | wrapper w inner m ih =>
    intro depth place
    refine stops_lower_of_shape ?_
    rw [Struct.shape, lowerShape_wrapper, violationsOfShape_wrapper, Traced.result_bind]
    exact (ih _ _).bind fun node hnode => stops_required hnode (result_wrapper w node)
  | series k items m ih =>
    intro depth place
    refine stops_lower_of_shape ?_
    rw [Struct.shape, lowerShape_series, violationsOfShape_series, Traced.result_bind]
    exact (stops_items fun s hs => ih s hs _).bind_ok fun fs => ⟨_, rfl⟩
  | object fields policy m ih =>
    intro depth place
    refine stops_lower_of_shape ?_
    rw [Struct.shape, lowerShape_object, violationsOfShape_object, Traced.result_bind]
    exact (stops_fields fun field hfield => ih field hfield _).bind_ok fun nodes => ⟨_, rfl⟩

/-- The root itself may not be optional, which is looked at last. -/
theorem stops_documentWith (config : Config) (s : Struct) :
    Stops [] (s.documentWith config)
      (s.violations config.maxDepth 0 [] ++ s.optionalViolations [] .optionalRoot) := by
  rw [documentWith_eq]
  exact (stops_lower s 0 []).bind fun node hnode => stops_required hnode (result_documentOf node)

end Struct

/-- **Exact failures of a conversion.** Lowering a struct fails with an error just if that is the
first violation in the struct, and succeeds just if there is none. For the whole conversion it is
one more violation, and the last, that the struct is optional. -/
theorem conversion_stops_at_first_violation (s : Struct) (config : Config) :
    (∀ e, (s.node config).result = .error e ↔
      (s.violations config.maxDepth 0 []).head? = some e) ∧
    ((∃ node, (s.node config).result = .ok node) ↔ s.violations config.maxDepth 0 [] = []) ∧
    (∀ e, s.documentWith config = .error e ↔
      (s.violations config.maxDepth 0 [] ++ s.optionalViolations [] .optionalRoot).head? = some e) ∧
    ((∃ doc, s.documentWith config = .ok doc) ↔
      s.violations config.maxDepth 0 [] = [] ∧ s.isOptional = false) := by
  have hnode : Stops [] (s.node config).result (s.violations config.maxDepth 0 []) :=
    Struct.stops_lower s 0 []
  have hdoc := Struct.stops_documentWith config s
  refine ⟨hnode.error_iff, hnode.ok_iff, hdoc.error_iff, hdoc.ok_iff.trans ?_⟩
  rw [List.append_eq_nil_iff, Struct.optionalViolations]
  cases s.isOptional <;> simp

end ShapeSchema
