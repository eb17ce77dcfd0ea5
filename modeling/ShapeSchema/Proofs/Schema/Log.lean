import ShapeSchema.Proofs.Schema.Violations
import ShapeSchema.Proofs.Struct.Walk

/-!
# The log of a conversion

A walk over a struct that stops nowhere comes upon events and obstacles: on the way down it notes
each struct with its depth, on the way up each override that is ignored. A conversion logs what such
a walk notes before it comes to the first obstacle.
-/

namespace ShapeSchema

namespace Struct

/-- The override of the struct itself, if it is ignored. -/
def ignoredOverride? (s : Struct) : Option Json :=
  match s.annotated? overrideId with
  | none | some (.object _) => none
  | some value => some value

/-- The events of a walk that stops nowhere, the struct being at this depth. -/
def completeLog (depth : Nat) (s : Struct) : List Event :=
  s.walk (fun depth t => [.lowering depth t.kind])
    (fun _ t => (t.ignoredOverride?.map Event.overrideIgnored).toList) depth

end Struct

/-! ## Events and obstacles -/

/-- What a walk over a struct comes upon. -/
inductive Finding where
  | event (event : Event)
  | obstacle (error : ConversionError)

/-- The event, if it is one. -/
def Finding.event? : Finding → Option Event
  | .event found => some found
  | .obstacle _ => none

namespace Struct

/-- What there is to find in the metadata of a struct. -/
def metadataFindings (s : Struct) (place : Place) : List Finding :=
  (s.defaultViolations place).map .obstacle ++
    (s.ignoredOverride?.map fun value => .event (.overrideIgnored value)).toList

mutual

/-- All events and obstacles of a walk over a struct at this depth and place, in their order. -/
def course (limit : Nat) : Struct → Nat → Place → List Finding
  | .mk shape m, depth, place =>
    (if limit < depth then [.obstacle ⟨place, .tooDeep limit⟩] else []) ++
      [.event (.lowering depth shape.kind)] ++ courseOfShape limit shape (depth + 1) place ++
      (Struct.mk shape m).metadataFindings place
termination_by structural s => s

/-- All events and obstacles of a walk over a shape. -/
def courseOfShape (limit : Nat) : Shape Struct → Nat → Place → List Finding
  | .leaf l, _, place => if l.hasSchema then [] else [.obstacle ⟨place, .unsupported l.name⟩]
  | .wrapper w inner, depth, place =>
    course limit inner depth place ++ (inner.optionalViolations place w.obstacle).map .obstacle
  | .series k items, depth, place => courseOfItems limit k items 0 depth place
  | .object fields _, depth, place => courseOfFields limit fields depth place
termination_by structural shape => shape

/-- All events and obstacles of a walk over the items of a series, from the given position on. -/
def courseOfItems (limit : Nat) (k : Series) : List Struct → Nat → Nat → Place → List Finding
  | [], _, _, _ => []
  | s :: rest, position, depth, place =>
    course limit s depth (place ++ [Nat.repr position]) ++
      (s.optionalViolations (place ++ [Nat.repr position]) k.obstacle).map .obstacle ++
      courseOfItems limit k rest (position + 1) depth place
termination_by structural items => items

/-- All events and obstacles of a walk over the fields of an object. -/
def courseOfFields (limit : Nat) : List (String × Struct) → Nat → Place → List Finding
  | [], _, _ => []
  | (name, s) :: rest, depth, place =>
    course limit s depth (place ++ [name]) ++ courseOfFields limit rest depth place
termination_by structural fields => fields

end

variable {limit : Nat}

theorem course_eq (s : Struct) (depth : Nat) (place : Place) : s.course limit depth place =
    (if limit < depth then [.obstacle ⟨place, .tooDeep limit⟩] else []) ++
      [.event (.lowering depth s.kind)] ++ courseOfShape limit s.shape (depth + 1) place ++
      s.metadataFindings place := by
  obtain ⟨shape, m⟩ := s
  rfl

section

variable (k : Series) (s inner : Struct) (rest : List Struct) (name : String)
  (fields : List (String × Struct)) (position depth : Nat) (place : Place)

theorem courseOfShape_leaf (l : Leaf) : courseOfShape limit (.leaf l) depth place =
    if l.hasSchema then [] else [.obstacle ⟨place, .unsupported l.name⟩] := rfl

theorem courseOfShape_wrapper (w : Wrapper) :
    courseOfShape limit (.wrapper w inner) depth place = inner.course limit depth place ++
      (inner.optionalViolations place w.obstacle).map .obstacle := rfl

theorem courseOfItems_cons : courseOfItems limit k (s :: rest) position depth place =
    s.course limit depth (place ++ [Nat.repr position]) ++
      (s.optionalViolations (place ++ [Nat.repr position]) k.obstacle).map .obstacle ++
      courseOfItems limit k rest (position + 1) depth place := rfl

theorem courseOfFields_cons : courseOfFields limit ((name, s) :: fields) depth place =
    s.course limit depth (place ++ [name]) ++ courseOfFields limit fields depth place := rfl

end

/-! ### The events are those of a complete walk -/

theorem events_obstacles (errors : List ConversionError) :
    (errors.map Finding.obstacle).filterMap Finding.event? = [] := by
  rw [List.filterMap_eq_nil_iff]
  intro finding hfinding
  obtain ⟨error, -, rfl⟩ := List.mem_map.mp hfinding
  rfl

theorem events_metadataFindings (s : Struct) (place : Place) :
    (s.metadataFindings place).filterMap Finding.event? =
      (s.ignoredOverride?.map Event.overrideIgnored).toList := by
  rw [metadataFindings, List.filterMap_append, events_obstacles]
  cases s.ignoredOverride? <;> rfl

section

variable {enter leave : Nat → Struct → List Event} {depth : Nat} {place : Place}

theorem events_courseOfItems {k : Series} {items : List Struct} {position : Nat}
    (h : ∀ s ∈ items, ∀ place, (course limit s depth place).filterMap Finding.event? =
      s.walk enter leave depth) :
    (courseOfItems limit k items position depth place).filterMap Finding.event? =
      items.flatMap (walk enter leave · depth) := by
  induction items generalizing position with
  | nil => rfl
  | cons s rest ih =>
    rw [courseOfItems_cons, List.filterMap_append, List.filterMap_append, events_obstacles,
      List.append_nil, h s (by simp), ih fun t ht => h t (by simp [ht]), List.flatMap_cons]

theorem events_courseOfFields {fields : List (String × Struct)}
    (h : ∀ field ∈ fields, ∀ place, (field.2.course limit depth place).filterMap Finding.event? =
      field.2.walk enter leave depth) :
    (courseOfFields limit fields depth place).filterMap Finding.event? =
      (fields.map Prod.snd).flatMap (walk enter leave · depth) := by
  induction fields with
  | nil => rfl
  | cons field rest ih =>
    rw [courseOfFields_cons, List.filterMap_append, h field (by simp),
      ih fun t ht => h t (by simp [ht]), List.map_cons, List.flatMap_cons]

end

/-- If so for the shape, the events are those of a complete walk for the struct. -/
theorem events_course_of_shape {s : Struct} {depth : Nat} {place : Place}
    (h : (courseOfShape limit s.shape (depth + 1) place).filterMap Finding.event? =
      s.shape.parts.flatMap (completeLog (depth + 1))) :
    (s.course limit depth place).filterMap Finding.event? = s.completeLog depth := by
  have hlimit : (if limit < depth then [Finding.obstacle ⟨place, .tooDeep limit⟩] else []).filterMap
      Finding.event? = [] := by split <;> rfl
  rw [course_eq, completeLog, walk_eq, List.filterMap_append, List.filterMap_append,
    List.filterMap_append, hlimit, h, events_metadataFindings]
  rfl

theorem events_course (s : Struct) : ∀ depth place,
    (s.course limit depth place).filterMap Finding.event? = s.completeLog depth := by
  induction s using Struct.induction with
  | leaf l m =>
    intro depth place
    refine events_course_of_shape ?_
    rw [shape, courseOfShape_leaf]
    cases l.hasSchema <;> rfl
  | wrapper w inner m ih =>
    intro depth place
    refine events_course_of_shape ?_
    rw [shape, courseOfShape_wrapper, List.filterMap_append, events_obstacles, ih]
    simp [Shape.parts]
  | series k items m ih =>
    intro depth place
    exact events_course_of_shape (events_courseOfItems fun s hs => ih s hs _)
  | object fields policy m ih =>
    intro depth place
    exact events_course_of_shape (events_courseOfFields fun field hfield => ih field hfield _)

end Struct

/-! ## A conversion logs its course up to the first obstacle -/

/-- The computation at this place logs the events that are found and goes past no obstacle: it fails
with the first, and succeeds if there is none. -/
def Tracks {α : Type} (place : Place) (x : Traced α) (found : List Finding) : Prop :=
  match x.result with
  | .ok _ => found = x.events.map .event
  | .error e => ∃ rest,
      found = x.events.map .event ++ .obstacle ⟨place ++ e.place, e.obstacle⟩ :: rest

namespace Tracks

variable {α β : Type} {place : Place} {x : Traced α} {found rest : List Finding}

theorem pure (a : α) : Tracks place (Pure.pure a) [] := rfl

theorem log (event : Event) : Tracks place (Traced.log event) [.event event] := rfl

theorem fail (obstacle : Obstacle) (rest : List Finding) :
    Tracks place (Traced.fail obstacle : Traced α) (.obstacle ⟨place, obstacle⟩ :: rest) :=
  ⟨rest, by simp [Traced.fail, ConversionError.here]⟩

/-- One computation after the other: what the second finds comes behind what the first finds. -/
theorem bind (hx : Tracks place x found) {f : α → Traced β}
    (hf : ∀ a, x.result = .ok a → Tracks place (f a) rest) : Tracks place (x >>= f) (found ++ rest) := by
  rw [Tracks] at hx
  cases hresult : x.result with
  | ok a =>
    rw [hresult] at hx
    have hrest := hf a hresult
    rw [Tracks] at hrest ⊢
    rw [Traced.result_bind, hresult, ok_bind, Traced.events_bind_ok hresult, hx]
    cases hlast : (f a).result with
    | ok b =>
      rw [hlast] at hrest
      show _ = _
      rw [hrest, List.map_append]
    | error e =>
      rw [hlast] at hrest
      obtain ⟨tail, hrest⟩ := hrest
      exact ⟨tail, by rw [hrest, List.map_append, List.append_assoc]⟩
  | error e =>
    rw [hresult] at hx
    obtain ⟨tail, hx⟩ := hx
    rw [Tracks, Traced.result_bind, hresult, error_bind, Traced.events_bind_error hresult, hx]
    exact ⟨tail ++ rest, by rw [List.append_assoc, List.cons_append]⟩

/-- A last step that neither logs nor fails adds nothing. -/
theorem bind_pure (hx : Tracks place x found) (f : α → β) :
    Tracks place (x >>= fun a => Pure.pure (f a)) found := by
  have h := hx.bind fun a _ => Tracks.pure (f a)
  rwa [List.append_nil] at h

theorem under {step : String} (hx : Tracks (place ++ [step]) x found) :
    Tracks place (x.under step) found := by
  rw [Tracks] at hx ⊢
  rw [Traced.result_under, Traced.events_under]
  cases hresult : x.result with
  | ok a =>
    rw [hresult] at hx
    exact hx
  | error e =>
    rw [hresult] at hx
    obtain ⟨tail, hx⟩ := hx
    have hplace : place ++ step :: e.place = place ++ [step] ++ e.place := List.append_cons ..
    exact ⟨tail, by rw [hx, ← hplace]; rfl⟩

/-- The events are the first of those that are found. -/
theorem events_prefix (hx : Tracks place x found) :
    x.events <+: found.filterMap Finding.event? := by
  have hevents : (x.events.map Finding.event).filterMap Finding.event? = x.events := by
    rw [List.filterMap_map]
    exact List.filterMap_some
  rw [Tracks] at hx
  split at hx
  · have hall : found.filterMap Finding.event? = x.events := by rw [hx, hevents]
    exact hall ▸ List.prefix_rfl
  · obtain ⟨tail, hx⟩ := hx
    rw [hx, List.filterMap_append, hevents]
    exact List.prefix_append _ _

/-- If the computation succeeds, then the events are all those that are found. -/
theorem events_eq (hx : Tracks place x found) {a : α} (h : x.result = .ok a) :
    x.events = found.filterMap Finding.event? := by
  rw [Tracks, h] at hx
  rw [hx, List.filterMap_map]
  exact List.filterMap_some.symm

end Tracks

namespace Struct

variable {limit depth : Nat} {place : Place}

theorem tracks_withMetadata (s : Struct) (node : Node) :
    Tracks place (node.withMetadata s) (s.metadataFindings place) := by
  have hdefault : Tracks place ((node.withDeprecation s.deprecation).withDefault s)
      ((s.defaultViolations place).map .obstacle) := by
    rw [Node.withDefault, defaultViolations]
    cases s.defaultValue with
    | none => exact .pure _
    | some value =>
      dsimp only
      cases s.encode value with
      | ok encoded => exact .pure _
      | error e => exact .fail _ []
  have hoverride : ∀ node : Node, Tracks place (node.withOverride (s.annotated? overrideId))
      (s.ignoredOverride?.map fun value => Finding.event (.overrideIgnored value)).toList := by
    intro node
    rw [Node.withOverride.eq_def, ignoredOverride?]
    rcases s.annotated? overrideId with _ | v
    · exact .pure node
    · cases v with
      | object patch => exact .pure _
      | _ => exact (Tracks.log _).bind_pure fun _ => node
  exact hdefault.bind fun node _ => hoverride node

/-- The check that follows a struct inside, made on its node, says what can be seen from the struct
itself. -/
theorem tracks_required {α : Type} {s : Struct} {node : Node} {a : α} {obstacle : Obstacle}
    (hnode : (s.lower limit depth).result = .ok node) {check : Traced α}
    (hcheck : check = if node.required then pure a else .fail obstacle) :
    Tracks place check ((s.optionalViolations place obstacle).map .obstacle) := by
  rw [hcheck, lower_required hnode, optionalViolations]
  cases s.isOptional
  · exact .pure a
  · exact .fail obstacle []

theorem tracks_items {k : Series} {items : List Struct} {position : Nat}
    (h : ∀ s ∈ items, ∀ place, Tracks place (Struct.lower limit s depth)
      (s.course limit depth place)) :
    Tracks place (lowerItems limit k.container items position depth)
      (courseOfItems limit k items position depth place) := by
  induction items generalizing position with
  | nil => exact .pure []
  | cons s rest ih =>
    rw [lowerItems_cons, courseOfItems_cons]
    refine Tracks.bind (Tracks.under (Tracks.bind (h s (by simp) _) fun node hnode => ?_))
      fun f _ => ?_
    · exact tracks_required hnode (by rw [Node.item]; cases k <;> rfl)
    · exact (ih fun s hs => h s (by simp [hs])).bind_pure _

theorem tracks_fields {fields : List (String × Struct)}
    (h : ∀ field ∈ fields, ∀ place, Tracks place (Struct.lower limit field.2 depth)
      (field.2.course limit depth place)) :
    Tracks place (lowerFields limit fields depth) (courseOfFields limit fields depth place) := by
  induction fields with
  | nil => exact .pure []
  | cons field rest ih =>
    obtain ⟨name, s⟩ := field
    rw [lowerFields_cons, courseOfFields_cons]
    refine Tracks.bind (Tracks.under (h (name, s) (by simp) _)) fun node _ => ?_
    exact (ih fun field hfield => h field (by simp [hfield])).bind_pure _

/-- If the shape logs its course, then so does the struct. -/
theorem tracks_lower_of_shape {s : Struct}
    (h : Tracks place (lowerShape limit s.shape (depth + 1))
      (courseOfShape limit s.shape (depth + 1) place)) :
    Tracks place (s.lower limit depth) (s.course limit depth place) := by
  have hvisit : Tracks place (visit limit depth s.kind)
      ((if limit < depth then [.obstacle ⟨place, .tooDeep limit⟩] else []) ++
        [.event (.lowering depth s.kind)]) := by
    rw [visit]
    split
    · exact .fail _ _
    · exact .log _
  rw [lower_eq, course_eq, List.append_assoc]
  exact hvisit.bind fun _ _ => h.bind fun node _ => tracks_withMetadata s node

/-- **Lowering logs the course of the walk up to the first obstacle.** -/
theorem tracks_lower (s : Struct) : ∀ depth place,
    Tracks place (s.lower limit depth) (s.course limit depth place) := by
  -- For all places at once: the walk carries the place down, the conversion builds it on the way up.
  induction s using Struct.induction with
  | leaf l m =>
    intro depth place
    refine tracks_lower_of_shape ?_
    rw [shape, lowerShape, Leaf.lower, courseOfShape_leaf, l.hasSchema_iff]
    cases l.fragment? with
    | none => exact .fail _ []
    | some fragment => exact .pure _
  | wrapper w inner m ih =>
    intro depth place
    refine tracks_lower_of_shape ?_
    rw [shape, lowerShape_wrapper, courseOfShape_wrapper]
    refine (ih _ _).bind fun node hnode => ?_
    refine tracks_required (a := ⟨w.fragment node.schema, w != .option⟩) hnode ?_
    obtain ⟨schema, required⟩ := node
    cases w <;> cases required <;> rfl
  | series k items m ih =>
    intro depth place
    exact tracks_lower_of_shape ((tracks_items fun s hs => ih s hs _).bind_pure _)
  | object fields policy m ih =>
    intro depth place
    exact tracks_lower_of_shape ((tracks_fields fun field hfield => ih field hfield _).bind_pure _)

end Struct

/-! ## The kinds of events -/

namespace Event

/-- The events that lowering logs; a struct beyond the limit is not among them. -/
def OfLowering (limit : Nat) : Event → Prop
  | lowering depth _ => depth ≤ limit
  | overrideIgnored _ => True
  | _ => False

/-- The depth and the kind of a struct that is looked at. -/
def lowering? : Event → Option (Nat × Kind)
  | lowering depth kind => some (depth, kind)
  | _ => none

/-- The override that is ignored. -/
def overrideIgnored? : Event → Option Json
  | overrideIgnored value => some value
  | _ => none

end Event

namespace Struct

variable {limit depth : Nat}

theorem logs_withMetadata (s : Struct) (node : Node) :
    (node.withMetadata s).Logs (Event.OfLowering limit) := by
  have hdefault : ((node.withDeprecation s.deprecation).withDefault s).events = [] := by
    rw [Node.withDefault]
    split
    · rfl
    · split <;> rfl
  refine (Traced.Logs.of_silent hdefault).bind fun node => ?_
  rw [Node.withOverride.eq_def]
  split
  · exact .of_silent rfl
  · exact .of_silent rfl
  · exact Traced.Logs.bind (.log trivial) fun _ => .of_silent rfl

theorem logs_item (container : Container) (node : Node) :
    (node.item container).Logs (Event.OfLowering limit) := by
  refine .of_silent ?_
  rw [Node.item]
  split <;> rfl

theorem logs_items {container : Container} {items : List Struct} {position : Nat}
    (h : ∀ s ∈ items, (Struct.lower limit s depth).Logs (Event.OfLowering limit)) :
    (lowerItems limit container items position depth).Logs (Event.OfLowering limit) := by
  induction items generalizing position with
  | nil => exact .of_silent rfl
  | cons s rest ih =>
    rw [lowerItems_cons]
    refine Traced.Logs.bind ((h s (by simp)).bind (logs_item container)).under fun f => ?_
    exact (ih fun t ht => h t (by simp [ht])).bind fun fs => .of_silent rfl

theorem logs_fields {fields : List (String × Struct)}
    (h : ∀ field ∈ fields, (field.2.lower limit depth).Logs (Event.OfLowering limit)) :
    (lowerFields limit fields depth).Logs (Event.OfLowering limit) := by
  induction fields with
  | nil => exact .of_silent rfl
  | cons field rest ih =>
    obtain ⟨name, s⟩ := field
    rw [lowerFields_cons]
    refine Traced.Logs.bind (h (name, s) (by simp)).under fun node => ?_
    exact (ih fun t ht => h t (by simp [ht])).bind fun nodes => .of_silent rfl

theorem logs_lower_of_shape {s : Struct}
    (h : (lowerShape limit s.shape (depth + 1)).Logs (Event.OfLowering limit)) :
    (s.lower limit depth).Logs (Event.OfLowering limit) := by
  have hvisit : (visit limit depth s.kind).Logs (Event.OfLowering limit) := by
    rw [visit]
    split
    · exact .of_silent rfl
    · rename_i hdepth
      exact .log (Nat.le_of_not_lt hdepth)
  rw [lower_eq]
  exact hvisit.bind fun _ => h.bind (logs_withMetadata s)

/-- Lowering logs no struct beyond the limit. -/
theorem logs_lower (s : Struct) (depth : Nat) :
    (s.lower limit depth).Logs (Event.OfLowering limit) := by
  induction s using Struct.induction generalizing depth with
  | leaf l m =>
    have hleaf : l.lower.events = [] := by
      rw [Leaf.lower]
      split <;> rfl
    exact logs_lower_of_shape (.of_silent hleaf)
  | wrapper w inner m ih =>
    refine logs_lower_of_shape ((ih _).bind fun node => .of_silent ?_)
    obtain ⟨schema, required⟩ := node
    cases w <;> cases required <;> rfl
  | series k items m ih =>
    exact logs_lower_of_shape ((logs_items fun s hs => ih s hs _).bind fun fs => .of_silent rfl)
  | object fields policy m ih =>
    exact logs_lower_of_shape
      ((logs_fields fun field hfield => ih field hfield _).bind fun nodes => .of_silent rfl)

/-! ## The whole conversion -/

/-- What a conversion logs in front of and behind the events of lowering. -/
theorem events_convert (config : Config) (s : Struct) :
    (s.convert config).events = [.converting s.kind] ++ (s.node config).events ++
      match s.documentWith config with
      | .ok _ => []
      | .error e => [.failed e] := by
  have hdocument : ∀ node, (documentOf node).events = [] := by
    intro node
    rw [documentOf]
    split <;> rfl
  have hwalk : (Traced.log (.converting s.kind) >>= fun _ => s.node config >>= documentOf).events =
      [.converting s.kind] ++ (s.node config).events := by
    rw [Traced.events_bind_ok rfl, Traced.events_log]
    cases hnode : (s.node config).result with
    | ok node => rw [Traced.events_bind_ok hnode, hdocument, List.append_nil]
    | error e => rw [Traced.events_bind_error hnode]
  rw [documentWith, convert, logFailure]
  cases hresult : (Traced.log (.converting s.kind) >>= fun _ =>
      s.node config >>= documentOf).result with
  | ok doc =>
    dsimp only
    rw [hresult, hwalk, List.append_nil]
  | error e =>
    dsimp only
    rw [hwalk]

theorem lowering_completeLog (s : Struct) :
    (s.completeLog 0).filterMap Event.lowering? =
      s.preorder.map fun (depth, t) => (depth, t.kind) := by
  have hleave : ∀ t : Struct, (t.ignoredOverride?.map Event.overrideIgnored).toList.filterMap
      Event.lowering? = [] := by
    intro t
    cases t.ignoredOverride? <;> rfl
  rw [completeLog, filterMap_walk, preorder, ← List.filterMap_eq_map, filterMap_walk]
  simp only [hleave]
  rfl

theorem ignored_completeLog (s : Struct) :
    (s.completeLog 0).filterMap Event.overrideIgnored? =
      s.postorder.filterMap ignoredOverride? := by
  have hleave : ∀ t : Struct, (t.ignoredOverride?.map Event.overrideIgnored).toList.filterMap
      Event.overrideIgnored? = [t].filterMap ignoredOverride? := by
    intro t
    rw [List.filterMap_cons, List.filterMap_nil]
    cases t.ignoredOverride? <;> rfl
  rw [completeLog, filterMap_walk, postorder, filterMap_walk]
  simp only [hleave]
  rfl

end Struct

/-- **The log of a conversion.** The first event is that the conversion begins, and the last, just if
it fails, is the failure; between them stand the events of lowering, which look at no struct beyond
the limit. If lowering succeeds, they are those of a walk over all structs: each struct with its depth
and kind before those inside it, each ignored override behind them. If it fails, they are those of
the walk up to the obstacle. -/
theorem conversion_log (s : Struct) (config : Config) :
    (s.convert config).events = [.converting s.kind] ++ (s.node config).events ++
      (match s.documentWith config with
        | .ok _ => []
        | .error e => [.failed e]) ∧
    (∀ e, (Event.failed e).data =
      [("path", ⟨e.place.text, false⟩), ("code", ⟨e.obstacle.text, false⟩)]) ∧
    (∀ event ∈ (s.node config).events, event.OfLowering config.maxDepth) ∧
    (∀ node, (s.node config).result = .ok node →
      (s.node config).events = s.completeLog 0 ∧
      (s.node config).events.filterMap Event.lowering? =
        s.preorder.map (fun (depth, t) => (depth, t.kind)) ∧
      (s.node config).events.filterMap Event.overrideIgnored? =
        s.postorder.filterMap Struct.ignoredOverride?) ∧
    (∀ e, (s.node config).result = .error e →
      (s.node config).events <+: s.completeLog 0 ∧
      ∃ rest, s.course config.maxDepth 0 [] =
        (s.node config).events.map .event ++ .obstacle e :: rest) := by
  have htracks : Tracks [] (s.node config) (s.course config.maxDepth 0 []) := s.tracks_lower 0 []
  refine ⟨s.events_convert config, fun _ => rfl, s.logs_lower 0, fun node hnode => ?_,
    fun e herror => ⟨?_, ?_⟩⟩
  · have hevents := htracks.events_eq hnode
    rw [s.events_course] at hevents
    rw [hevents]
    exact ⟨rfl, s.lowering_completeLog, s.ignored_completeLog⟩
  · have hprefix := htracks.events_prefix
    rwa [s.events_course] at hprefix
  · rw [Tracks, herror] at htracks
    exact htracks

/-- An entry with an override that is none, and a second field of this kind. -/
def entryWith (second : Struct) : Struct :=
  .object [("tag", Struct.string.annotate overrideId (.bool true)), ("second", second),
    ("note", .string)]

theorem conversion_log_entry :
    (∃ node, ((entryWith .int).node {}).result = .ok node ∧
      ((entryWith .int).node {}).events = [.lowering 0 .object, .lowering 1 .string,
        .overrideIgnored (.bool true), .lowering 1 .int, .lowering 1 .string] ∧
      ((entryWith .int).node {}).events = (entryWith .int).completeLog 0) ∧
    (Event.lowering 1 .date ∈ ((entryWith .date).node {}).events ∧
      (Event.lowering 1 .date).OfLowering 128) ∧
    ∃ e, ((entryWith .date).node {}).result = .error e ∧
      ((entryWith .date).node {}).events = [.lowering 0 .object, .lowering 1 .string,
        .overrideIgnored (.bool true), .lowering 1 .date] ∧
      ((entryWith .date).node {}).events <+: (entryWith .date).completeLog 0 := by
  obtain ⟨-, -, -, hok, -⟩ := conversion_log (entryWith .int) {}
  obtain ⟨-, -, hlowering, -, herror⟩ := conversion_log (entryWith .date) {}
  have hdate : Event.lowering 1 .date ∈ ((entryWith .date).node {}).events :=
    .tail _ (.tail _ (.tail _ (.head _)))
  exact ⟨⟨_, rfl, rfl, (hok _ rfl).1⟩, ⟨hdate, hlowering _ hdate⟩, _, rfl, rfl, (herror _ rfl).1⟩

end ShapeSchema
