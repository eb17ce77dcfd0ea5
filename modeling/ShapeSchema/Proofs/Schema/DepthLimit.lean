import ShapeSchema.Proofs.Schema.Lowering
import ShapeSchema.Proofs.Struct.Frames

/-!
# The depth limit

The limit of a conversion decides one thing only: whether the struct is too high. Under it, the outcome
is the same for all limits, and so is any failure that comes before one of depth. What stands too deep
is not looked at, and the default of a struct is not looked at if anything inside the struct is too deep.
-/

namespace ShapeSchema

/-! ## Outcomes at two limits -/

/-- The outcome under a limit and that under another: the same, unless the first limit is exceeded. -/
def Persists {α : Type} (limit : Nat) (x y : Except ConversionError α) : Prop :=
  (∃ place, x = .error ⟨place, .tooDeep limit⟩) ∨ x = y

namespace Persists

variable {α β : Type} {limit : Nat} {x y : Except ConversionError α}

theorem refl (x : Except ConversionError α) : Persists limit x x := .inr rfl

theorem bind (h : Persists limit x y) {f g : α → Except ConversionError β}
    (hfg : ∀ a, Persists limit (f a) (g a)) : Persists limit (x >>= f) (y >>= g) := by
  rcases h with ⟨place, rfl⟩ | rfl
  · exact .inl ⟨place, rfl⟩
  · cases x with
    | ok a => exact hfg a
    | error e => exact .refl _

theorem under (h : Persists limit x y) (step : String) :
    Persists limit (x.mapError (.under step)) (y.mapError (.under step)) := by
  rcases h with ⟨place, rfl⟩ | rfl
  · exact .inl ⟨step :: place, rfl⟩
  · exact .refl _

end Persists

namespace Struct

variable {limit limit' depth : Nat}

theorem persists_items (container : Container) {items : List Struct} {position : Nat}
    (h : ∀ s ∈ items, Persists limit (Struct.lower limit s depth).result
      (Struct.lower limit' s depth).result) :
    Persists limit (lowerItems limit container items position depth).result
      (lowerItems limit' container items position depth).result := by
  induction items generalizing position with
  | nil => exact .refl _
  | cons s rest ih =>
    simp only [lowerItems_cons, Traced.result_bind, Traced.result_under]
    refine .bind (.under (.bind (h s (by simp)) fun _ => .refl _) _) fun f => ?_
    exact .bind (ih fun t ht => h t (by simp [ht])) fun _ => .refl _

theorem persists_fields {fields : List (String × Struct)}
    (h : ∀ field ∈ fields, Persists limit (Struct.lower limit field.2 depth).result
      (Struct.lower limit' field.2 depth).result) :
    Persists limit (lowerFields limit fields depth).result
      (lowerFields limit' fields depth).result := by
  induction fields with
  | nil => exact .refl _
  | cons field rest ih =>
    obtain ⟨name, s⟩ := field
    simp only [lowerFields_cons, Traced.result_bind, Traced.result_under]
    refine .bind (.under (h (name, s) (by simp)) _) fun node => ?_
    exact .bind (ih fun t ht => h t (by simp [ht])) fun _ => .refl _

/-- It is enough to look at the shape: the metadata is merged without a limit. -/
theorem persists_lower_of_shape (hlimit : limit ≤ limit') {s : Struct}
    (h : Persists limit (lowerShape limit s.shape (depth + 1)).result
      (lowerShape limit' s.shape (depth + 1)).result) :
    Persists limit (s.lower limit depth).result (s.lower limit' depth).result := by
  rw [result_lower, result_lower]
  by_cases hdeep : limit < depth
  · rw [if_pos hdeep]
    exact .inl ⟨[], rfl⟩
  · rw [if_neg hdeep, if_neg (by omega)]
    exact h.bind fun _ => .refl _

/-- Under a higher limit, the outcome is the same unless the lower one is exceeded. -/
theorem persists_lower (hlimit : limit ≤ limit') (s : Struct) (depth : Nat) :
    Persists limit (s.lower limit depth).result (s.lower limit' depth).result := by
  induction s using Struct.induction generalizing depth with
  | leaf l m => exact persists_lower_of_shape hlimit (.refl _)
  | wrapper w inner m ih =>
    refine persists_lower_of_shape hlimit ?_
    simp only [Struct.shape, lowerShape_wrapper, Traced.result_bind]
    exact (ih _).bind fun _ => .refl _
  | series k items m ih =>
    refine persists_lower_of_shape hlimit ?_
    simp only [Struct.shape, lowerShape_series, Traced.result_bind]
    exact (persists_items _ fun s hs => ih s hs _).bind fun _ => .refl _
  | object fields policy m ih =>
    refine persists_lower_of_shape hlimit ?_
    simp only [Struct.shape, lowerShape_object, Traced.result_bind]
    exact (persists_fields fun field hfield => ih field hfield _).bind fun _ => .refl _

/-! ## Heights -/

theorem add_height_le {s : Struct} (hdepth : depth ≤ limit)
    (h : ∀ part ∈ s.shape.parts, depth + 1 + part.height ≤ limit) : depth + s.height ≤ limit := by
  have hheight : s.height ≤ limit - depth := by
    refine height_le.mpr fun part mem => ?_
    have hpart := h part mem
    omega
  omega

/-- What is lowered lies within the limit. -/
theorem add_height_le_of_lower {s : Struct} {node : Node}
    (h : (s.lower limit depth).result = .ok node) : depth + s.height ≤ limit := by
  induction s using Struct.induction_parts generalizing depth node with
  | step s ih =>
    obtain ⟨hdepth, base, hbase, -⟩ := lower_eq_ok.mp h
    refine add_height_le hdepth fun part mem => ?_
    obtain ⟨node, hnode⟩ := exists_lower_part hbase mem
    exact ih part mem hnode

theorem add_height_le_of_lowerShape {s : Struct} {base : Node} (hdepth : depth ≤ limit)
    (h : (lowerShape limit s.shape (depth + 1)).result = .ok base) : depth + s.height ≤ limit := by
  refine add_height_le hdepth fun part mem => ?_
  obtain ⟨node, hnode⟩ := exists_lower_part h mem
  exact add_height_le_of_lower hnode

/-! ## Where failures come from -/

end Struct

/-- What may be wrong with a shape, apart from the structs inside it. -/
def Obstacle.OfShape : Obstacle → Prop
  | .unsupported _ | .optionalItem _ | .nestedOption => True
  | _ => False

namespace Struct

theorem item_eq_error {container : Container} {node : Node} {e : ConversionError}
    (h : (node.item container).result = .error e) : e.obstacle.OfShape := by
  rw [Node.item] at h
  split at h
  · cases h
  · cases h
    trivial

theorem wrapper_eq_error {w : Wrapper} {inner : Node} {e : ConversionError}
    (h : (w.lower inner).result = .error e) : e.obstacle.OfShape := by
  rw [result_wrapper] at h
  split at h
  · cases h
  · cases h
    cases w <;> trivial

/-- The items fail with the failure of one of them, seen from one step further out. -/
theorem lowerItems_eq_error {container : Container} {items : List Struct} {position : Nat}
    {e : ConversionError} (h : (lowerItems limit container items position depth).result = .error e) :
    e.obstacle.OfShape ∨ ∃ before s after e', items = before ++ s :: after ∧
      (s.lower limit depth).result = .error e' ∧ e = e'.under (Nat.repr (position + before.length)) := by
  induction items generalizing position with
  | nil => cases h
  | cons s rest ih =>
    simp only [lowerItems_cons, Traced.result_bind, Traced.result_under] at h
    rcases bind_eq_error.mp h with hitem | ⟨f, -, hrest⟩
    · obtain ⟨e', he', rfl⟩ := mapError_eq_error.mp hitem
      rcases bind_eq_error.mp he' with hs | ⟨node, -, hnode⟩
      · exact .inr ⟨[], s, rest, e', rfl, hs, rfl⟩
      · exact .inl (item_eq_error (e := e') hnode)
    · rcases ih (bind_ok_eq_error.mp hrest) with hshape | ⟨before, t, after, e', rfl, ht, rfl⟩
      · exact .inl hshape
      · exact .inr ⟨s :: before, t, after, e', rfl, ht, by
          rw [List.length_cons, Nat.add_assoc, Nat.add_comm 1]⟩

/-- So it is with the fields. -/
theorem lowerFields_eq_error {fields : List (String × Struct)} {e : ConversionError}
    (h : (lowerFields limit fields depth).result = .error e) :
    ∃ before name s after e', fields = before ++ (name, s) :: after ∧
      (Struct.lower limit s depth).result = .error e' ∧ e = e'.under name := by
  induction fields with
  | nil => cases h
  | cons field rest ih =>
    obtain ⟨name, s⟩ := field
    simp only [lowerFields_cons, Traced.result_bind, Traced.result_under] at h
    rcases bind_eq_error.mp h with hs | ⟨node, -, hrest⟩
    · obtain ⟨e', he', rfl⟩ := mapError_eq_error.mp hs
      exact ⟨[], name, s, rest, e', rfl, he', rfl⟩
    · obtain ⟨before, name', t, after, e', rfl, ht, rfl⟩ := ih (bind_ok_eq_error.mp hrest)
      exact ⟨(name, s) :: before, name', t, after, e', rfl, ht, rfl⟩

/-- A shape fails for what is wrong with itself, or with a struct in one of its gaps. -/
theorem lowerShape_eq_error {shape : Shape Struct} {e : ConversionError}
    (h : (lowerShape limit shape depth).result = .error e) :
    e.obstacle.OfShape ∨ ∃ (gap : Gap) (s : Struct) (e' : ConversionError), shape = gap.fill s ∧
      (s.lower limit depth).result = .error e' ∧ e = ⟨gap.address ++ e'.place, e'.obstacle⟩ := by
  cases shape with
  | leaf l =>
    rw [result_leaf] at h
    split at h
    · cases h
    · cases h
      exact .inl trivial
  | wrapper w inner =>
    rw [lowerShape_wrapper, Traced.result_bind] at h
    rcases bind_eq_error.mp h with hinner | ⟨node, -, hnode⟩
    · exact .inr ⟨.wrapper w, inner, e, rfl, hinner, rfl⟩
    · exact .inl (wrapper_eq_error hnode)
  | series k items =>
    rw [lowerShape_series, Traced.result_bind] at h
    rcases lowerItems_eq_error (bind_ok_eq_error.mp h) with
      hshape | ⟨before, s, after, e', rfl, hs, rfl⟩
    · exact .inl hshape
    · refine .inr ⟨.series k before after, s, e', rfl, hs, ?_⟩
      rw [Nat.zero_add]
      rfl
  | object fields policy =>
    rw [lowerShape_object, Traced.result_bind] at h
    obtain ⟨before, name, s, after, e', rfl, hs, rfl⟩ :=
      lowerFields_eq_error (bind_ok_eq_error.mp h)
    exact .inr ⟨.object before name after policy, s, e', rfl, hs, rfl⟩

/-- A struct fails because it is too deep, for its shape, or, when that is lowered, for its default. -/
theorem cases_of_lower_eq_error {s : Struct} {e : ConversionError}
    (h : (s.lower limit depth).result = .error e) :
    (limit < depth ∧ e = .here (.tooDeep limit)) ∨
      (depth ≤ limit ∧ (lowerShape limit s.shape (depth + 1)).result = .error e) ∨
      (depth + s.height ≤ limit ∧ s.encodedDefault = .error e) := by
  rw [result_lower] at h
  split at h
  · cases h
    exact .inl ⟨‹_›, rfl⟩
  · have hdepth : depth ≤ limit := Nat.le_of_not_lt ‹_›
    rcases bind_eq_error.mp h with hshape | ⟨base, hbase, hrest⟩
    · exact .inr (.inl ⟨hdepth, hshape⟩)
    · exact .inr (.inr ⟨add_height_le_of_lowerShape hdepth hbase, bind_ok_eq_error.mp hrest⟩)

theorem encodedDefault_eq_error {s : Struct} {e : ConversionError} : s.encodedDefault = .error e ↔
    ∃ value e', s.defaultValue = some value ∧ s.encode value = .error e' ∧
      e = .here (.badDefault e'.message) := by
  rw [encodedDefault]
  cases s.defaultValue with
  | none => simp
  | some value => cases hvalue : s.encode value <;> simp [hvalue, eq_comm]

/-- The failure of a struct: something is wrong with a shape, or a struct inside stands right behind
the limit, or the default of a struct inside, which is within the limit, does not fit. -/
theorem lower_eq_error {s : Struct} {e : ConversionError} (hdepth : depth ≤ limit + 1)
    (h : (s.lower limit depth).result = .error e) :
    e.obstacle.OfShape ∨ ∃ frames t, s = Frame.plug frames t ∧ e.place = Frame.address frames ∧
      (depth + frames.length = limit + 1 ∧ e.obstacle = .tooDeep limit ∨
        depth + frames.length + t.height ≤ limit ∧ t.encodedDefault = .error (.here e.obstacle)) := by
  induction s using Struct.induction_parts generalizing depth e with
  | step s ih =>
    rcases cases_of_lower_eq_error h with ⟨hdeep, rfl⟩ | ⟨hle, hshape⟩ | ⟨hheight, hdefault⟩
    · exact .inr ⟨[], s, rfl, rfl, .inl ⟨by rw [List.length_nil]; omega, rfl⟩⟩
    · rcases lowerShape_eq_error hshape with hown | ⟨gap, part, e', hgap, hpart, rfl⟩
      · exact .inl hown
      · obtain ⟨shape, m⟩ := s
        obtain rfl : shape = gap.fill part := hgap
        refine (ih part (gap.mem_parts_fill part) (by omega) hpart).imp_right ?_
        rintro ⟨frames, t, rfl, hplace, horigin⟩
        refine ⟨⟨gap, m⟩ :: frames, t, rfl, by rw [Frame.address_cons, ← hplace], ?_⟩
        rwa [List.length_cons, Nat.add_comm frames.length, ← Nat.add_assoc]
    · obtain ⟨value, e', -, -, rfl⟩ := encodedDefault_eq_error.mp hdefault
      exact .inr ⟨[], s, rfl, rfl, .inr ⟨hheight, hdefault⟩⟩

/-- A struct that is too high fails no later than its shape, so that its metadata plays no part. -/
theorem lower_eq_of_deep {s t : Struct} (hkind : s.kind = t.kind)
    (hshape : lowerShape limit s.shape (depth + 1) = lowerShape limit t.shape (depth + 1))
    (hdeep : limit < depth + s.height) : s.lower limit depth = t.lower limit depth := by
  rw [lower_eq, lower_eq, ← hkind, ← hshape]
  by_cases hdepth : limit < depth
  · have hvisit : (visit limit depth s.kind).result = .error (.here (.tooDeep limit)) := by
      rw [visit, if_pos hdepth]
      rfl
    rw [Traced.bind_of_error hvisit, Traced.bind_of_error hvisit]
  · cases hresult : (lowerShape limit s.shape (depth + 1)).result with
    | ok base =>
      have hheight := add_height_le_of_lowerShape (Nat.le_of_not_lt hdepth) hresult
      omega
    | error e => simp only [Traced.bind_of_error hresult]

end Struct

/-! ## What stands in a gap -/

theorem Gap.kind_fill (gap : Gap) (s t : Struct) : (gap.fill s).kind = (gap.fill t).kind := by
  cases gap <;> rfl

namespace Struct

theorem lowerShape_fill {s t : Struct} (h : s.lower limit depth = t.lower limit depth) (gap : Gap) :
    lowerShape limit (gap.fill s) depth = lowerShape limit (gap.fill t) depth := by
  cases gap with
  | wrapper w => rw [Gap.fill, Gap.fill, lowerShape_wrapper, lowerShape_wrapper, h]
  | series k before after =>
    have hitems : ∀ position, lowerItems limit k.container (before ++ s :: after) position depth =
        lowerItems limit k.container (before ++ t :: after) position depth := by
      intro position
      induction before generalizing position with
      | nil => simp only [List.nil_append, lowerItems_cons, h]
      | cons first before ih => simp only [List.cons_append, lowerItems_cons, ih]
    rw [Gap.fill, Gap.fill, lowerShape_series, lowerShape_series, hitems]
  | object before name after policy =>
    have hfields : lowerFields limit (before ++ (name, s) :: after) depth =
        lowerFields limit (before ++ (name, t) :: after) depth := by
      induction before with
      | nil => simp only [List.nil_append, lowerFields_cons, h]
      | cons field before ih =>
        obtain ⟨first, u⟩ := field
        simp only [List.cons_append, lowerFields_cons, ih]
    rw [Gap.fill, Gap.fill, lowerShape_object, lowerShape_object, hfields]

/-- The metadata of a struct inside is not looked at if anything inside that is too deep. -/
theorem lower_plug_of_deep {s t : Struct} (hshape : s.shape = t.shape) (frames : List Frame)
    (hdeep : limit < depth + frames.length + s.height) :
    (Frame.plug frames s).lower limit depth = (Frame.plug frames t).lower limit depth := by
  induction frames generalizing depth with
  | nil =>
    rw [Frame.plug_nil, Frame.plug_nil]
    exact lower_eq_of_deep (by rw [kind, kind, hshape]) (by rw [hshape]) hdeep
  | cons frame rest ih =>
    rw [List.length_cons] at hdeep
    refine lower_eq_of_deep (frame.gap.kind_fill _ _) (lowerShape_fill (ih (by omega)) frame.gap) ?_
    have hheight := Frame.height_plug (frame :: rest) s
    rw [List.length_cons] at hheight
    omega

/-! ## From the root -/

/-- A failure of depth is told of a struct one below the limit. -/
theorem node_eq_tooDeep {s : Struct} {place : Place} {n : Nat}
    (h : (s.node ⟨limit⟩).result = .error ⟨place, .tooDeep n⟩) :
    n = limit ∧ limit < s.height ∧ ∃ frames t, s = Frame.plug frames t ∧
      frames.length = limit + 1 ∧ place = Frame.address frames := by
  rcases lower_eq_error (Nat.zero_le (limit + 1)) h with hshape | ⟨frames, t, rfl, hplace, hdeep | hdefault⟩
  · exact hshape.elim
  · obtain ⟨hlength, hn⟩ := hdeep
    cases hn
    have hheight := Frame.height_plug frames t
    exact ⟨rfl, by omega, frames, t, rfl, by omega, hplace⟩
  · obtain ⟨_, _, -, -, he⟩ := encodedDefault_eq_error.mp hdefault.2
    cases he

/-- A default that does not fit is told of a struct that lies within the limit. -/
theorem node_eq_badDefault {s : Struct} {place : Place} {message : String}
    (h : (s.node ⟨limit⟩).result = .error ⟨place, .badDefault message⟩) :
    ∃ frames t, s = Frame.plug frames t ∧ frames.length + t.height ≤ limit ∧
      place = Frame.address frames ∧ ∃ value e, t.defaultValue = some value ∧
        t.encode value = .error e ∧ message = e.message := by
  rcases lower_eq_error (Nat.zero_le (limit + 1)) h with hshape | ⟨frames, t, rfl, hplace, hdeep | hdefault⟩
  · exact hshape.elim
  · cases hdeep.2
  · obtain ⟨hheight, hdefault⟩ := hdefault
    obtain ⟨value, e, hvalue, hencode, he⟩ := encodedDefault_eq_error.mp hdefault
    cases he
    exact ⟨frames, t, rfl, by omega, hplace, value, e, hvalue, hencode, rfl⟩

/-- A struct that has a node under one limit has it under every limit that it is not higher than. -/
theorem node_eq_ok_of_height {s : Struct} {node : Node} (h : (s.node ⟨limit⟩).result = .ok node)
    (hheight : s.height ≤ limit') : (s.node ⟨limit'⟩).result = .ok node := by
  rcases Nat.le_total limit limit' with hle | hle
  · rcases persists_lower hle s 0 with ⟨place, hdeep⟩ | hsame
    · cases h.symm.trans hdeep
    · exact hsame.symm.trans h
  · -- The other limit is lower: it could only be exceeded by a higher struct.
    rcases persists_lower hle s 0 with ⟨place, hdeep⟩ | hsame
    · have hlt := (node_eq_tooDeep hdeep).2.1
      omega
    · exact hsame.trans h

theorem node_eq_error_of_le {s : Struct} {e : ConversionError} (hle : limit ≤ limit')
    (h : (s.node ⟨limit⟩).result = .error e) (hne : ∀ n, e.obstacle ≠ .tooDeep n) :
    (s.node ⟨limit'⟩).result = .error e := by
  rcases persists_lower hle s 0 with ⟨place, hdeep⟩ | hsame
  · cases h.symm.trans hdeep
    exact absurd rfl (hne limit)
  · exact hsame.symm.trans h

theorem height_le_of_node {s : Struct} {node : Node} (h : (s.node ⟨limit⟩).result = .ok node) :
    s.height ≤ limit := by
  have hheight := add_height_le_of_lower h
  rwa [Nat.zero_add] at hheight

end Struct

/-- **The depth limit.** A conversion that succeeds under one limit succeeds for just the limits that
the struct is not higher than, and always with the same node. A failure that is none of depth is the
same under every higher limit. A failure of depth tells the limit; the struct is higher than that, and
the place is the address of a struct one below the limit. The default of a struct is left alone if the
struct does not lie within the limit as a whole: any other default, or none, makes no difference, and a
default that does not fit is told of a struct that does lie within the limit. -/
theorem depth_limit (s : Struct) (limit : Nat) :
    (∀ node, (s.node ⟨limit⟩).result = .ok node → s.height ≤ limit ∧
      ∀ limit', (s.height ≤ limit' → (s.node ⟨limit'⟩).result = .ok node) ∧
        ((∃ node', (s.node ⟨limit'⟩).result = .ok node') → s.height ≤ limit')) ∧
    (∀ e, (s.node ⟨limit⟩).result = .error e → (∀ n, e.obstacle ≠ .tooDeep n) →
      ∀ limit', limit ≤ limit' → (s.node ⟨limit'⟩).result = .error e) ∧
    (∀ place n, (s.node ⟨limit⟩).result = .error ⟨place, .tooDeep n⟩ →
      n = limit ∧ limit < s.height ∧ ∃ frames t, s = Frame.plug frames t ∧
        frames.length = limit + 1 ∧ place = Frame.address frames) ∧
    (∀ frames t, s = Frame.plug frames t → limit < frames.length + t.height →
      ∀ default, (Frame.plug frames (t.mapMetadata fun m => { m with default := default })).node ⟨limit⟩ =
        s.node ⟨limit⟩) ∧
    ∀ place message, (s.node ⟨limit⟩).result = .error ⟨place, .badDefault message⟩ →
      ∃ frames t, s = Frame.plug frames t ∧ frames.length + t.height ≤ limit ∧
        place = Frame.address frames ∧ ∃ value e, t.defaultValue = some value ∧
          t.encode value = .error e ∧ message = e.message := by
  refine ⟨fun node h => ⟨Struct.height_le_of_node h, fun limit' => ⟨Struct.node_eq_ok_of_height h, ?_⟩⟩,
    fun e h hne limit' hle => Struct.node_eq_error_of_le hle h hne, fun _ _ => Struct.node_eq_tooDeep,
    ?_, fun _ _ => Struct.node_eq_badDefault⟩
  · rintro ⟨node', h'⟩
    exact Struct.height_le_of_node h'
  · rintro frames t rfl hdeep default
    refine (Struct.lower_plug_of_deep ?_ frames (by rwa [Nat.zero_add])).symm
    cases t
    rfl

/-- A table of numbers, whose default is no table. -/
def rows : Struct := .object [("rows", .withDefault (.int 1) (.array (.array .int)))]

/-- One level below the limit, the default of the rows is not looked at; with one more level it is
found not to fit, and so it is under higher limits. -/
theorem depth_limit_rows :
    ((rows.node ⟨2⟩).result = .error ⟨["rows"], .tooDeep 2⟩ ∧ 2 < rows.height) ∧
      ∃ message, (rows.node ⟨3⟩).result = .error ⟨["rows"], .badDefault message⟩ ∧
        (rows.node ⟨9⟩).result = .error ⟨["rows"], .badDefault message⟩ := by
  have hdeep : (rows.node ⟨2⟩).result = .error ⟨["rows"], .tooDeep 2⟩ := rfl
  have hdefault : (rows.node ⟨3⟩).result = .error ⟨["rows"], .badDefault _⟩ := rfl
  obtain ⟨-, hpersists, -⟩ := depth_limit rows 3
  refine ⟨⟨hdeep, ((depth_limit rows 2).2.2.1 _ _ hdeep).2.1⟩, _, hdefault, ?_⟩
  exact hpersists _ hdefault (fun _ h => by cases h) 9 (by decide)

end ShapeSchema
