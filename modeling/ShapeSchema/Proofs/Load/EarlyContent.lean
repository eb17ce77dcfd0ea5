import ShapeSchema.Proofs.Load.ErrorPaths
import ShapeSchema.Proofs.Load.Layout

/-!
# Content that stands before its kind

A document with a gap for the content of a shape, where the content stands before the kind and no
content further out does. Once the content has passed the first check, what is wrong with it is said
of that shape, whatever it is and however deep inside it lies.
-/

namespace ShapeSchema

/-! ## Entries and items in front -/

/-- Entries behind others. -/
def Entries.behind : List (Except Fault String × Source) → Entries → Entries
  | [], entries => entries
  | (key, value) :: front, entries => .next key value (behind front entries)

/-- Items behind others. -/
def Items.behind : List Source → Items → Items
  | [], items => items
  | value :: front, items => .next value (behind front items)

theorem Entries.has_first (name : String) (v : Source) (rest : Entries) :
    (Entries.next (.ok name) v rest).Has name v := .inl ⟨rfl, rfl⟩

theorem Entries.has_later {entries : Entries} {name : String} {v : Source} (h : entries.Has name v)
    (key : Except Fault String) (value : Source) : (Entries.next key value entries).Has name v := .inr h

theorem Entries.has_behind {entries : Entries} {name : String} {v : Source}
    (h : entries.Has name v) (front : List (Except Fault String × Source)) :
    (behind front entries).Has name v := by
  induction front with
  | nil => exact h
  | cons entry front ih => exact has_later ih _ _

theorem Items.at?_behind (front : List Source) (v : Source) (rest : Items) :
    (behind front (.next v rest)).at? front.length = some v := by
  induction front with
  | nil => rfl
  | cons value front ih => exact ih

/-- None of these entries has one of these names. -/
def Apart (names : List String) (front : List (Except Fault String × Source)) : Prop :=
  ∀ entry ∈ front, ∀ name ∈ names, entry.1 ≠ .ok name

/-! ## Documents with a gap -/

/-- A document of this role with a gap, and the path to the shape whose content is due in the gap: the
content of a shape of this kind, of which the kind stands behind the content. `inner` is the way in
which what is inside that shape is read. On the path the kind comes first, where it is asked for. -/
inductive EarlyContent (inner : Access) (kind : Kind) :
    Role → Access → (Source → Source) → List Step → Prop
  | here {outer : Access} {front : List (Except Fault String × Source)} {rest after : Entries}
      (henter : outer.enter = .ok inner) (hfront : Apart ["kind", "of"] front)
      (hkind : rest.laterKind inner = .ok (kind, after)) :
      EarlyContent inner kind .shape outer
        (fun c => .record (.behind front (.next (.ok "of") c rest))) []
  | shapeEntry {outer access : Access} {front : List (Except Fault String × Source)} {rest : Entries}
      {f : Source → Source} {path : List Step} (henter : outer.enter = .ok access)
      (hf : EarlyContent inner kind .shape access f path) :
      EarlyContent inner kind .struct outer
        (fun c => .record (.behind front (.next (.ok "shape") (f c) rest))) (.key "shape" :: path)
  | shapeItem {outer access : Access} {rest : Items} {f : Source → Source} {path : List Step}
      (henter : outer.enter = .ok access) (hf : EarlyContent inner kind .shape access f path) :
      EarlyContent inner kind .struct outer (fun c => .list (.next (f c) rest)) (.index 0 :: path)
  | contentEntry {outer access : Access} {front between : List (Except Fault String × Source)}
      {v : Source} {outerKind : Kind} {rest : Entries} {f : Source → Source} {path : List Step}
      (henter : outer.enter = .ok access) (hfront : Apart ["kind", "of"] front)
      (hkind : v.readKind access = .ok outerKind) (hbetween : Apart ["of"] between)
      (hf : EarlyContent inner kind outerKind.contentRole access f path) :
      EarlyContent inner kind .shape outer
        (fun c => .record (.behind front (.next (.ok "kind") v
          (.behind between (.next (.ok "of") (f c) rest))))) (.key "of" :: path)
  | contentItem {outer access : Access} {v : Source} {outerKind : Kind} {rest : Items}
      {f : Source → Source} {path : List Step} (henter : outer.enter = .ok access)
      (hkind : v.readKindItem access = .ok outerKind)
      (hf : EarlyContent inner kind outerKind.contentRole access f path) :
      EarlyContent inner kind .shape outer
        (fun c => .list (.next v (.next (f c) rest))) (.index 1 :: path)
  | structsItem {outer access : Access} {front : List Source} {rest : Items} {f : Source → Source}
      {path : List Step} (henter : outer.enter = .ok access)
      (hf : EarlyContent inner kind .struct access f path) :
      EarlyContent inner kind .structs outer
        (fun c => .list (.behind front (.next (f c) rest))) (.index front.length :: path)
  | objectEntry {outer access : Access} {front : List (Except Fault String × Source)} {rest : Entries}
      {f : Source → Source} {path : List Step} (henter : outer.enter = .ok access)
      (hf : EarlyContent inner kind .fields access f path) :
      EarlyContent inner kind .object outer
        (fun c => .record (.behind front (.next (.ok "fields") (f c) rest))) (.key "fields" :: path)
  | fieldsEntry {outer access : Access} {front : List (Except Fault String × Source)} {rest : Entries}
      {name : String} {f : Source → Source} {path : List Step} (henter : outer.enter = .ok access)
      (hf : EarlyContent inner kind .struct access f path) :
      EarlyContent inner kind .fields outer
        (fun c => .record (.behind front (.next (.ok name) (f c) rest))) (.key name :: path)

/-- The path leads to the shape, and the gap is its content. -/
theorem EarlyContent.leadsTo {inner outer : Access} {kind : Kind} {role : Role} {f : Source → Source}
    {path : List Step} (h : EarlyContent inner kind role outer f path) (c : Source) :
    ∃ entries, (f c).LeadsTo path (.record entries) ∧ entries.Has "of" c := by
  induction h with
  | here henter hfront hkind => exact ⟨_, .here _, Entries.has_behind (Entries.has_first _ _ _) _⟩
  | shapeEntry henter hf ih =>
    obtain ⟨entries, hleads, hhas⟩ := ih
    exact ⟨entries, .entry (Entries.has_behind (Entries.has_first _ _ _) _) hleads, hhas⟩
  | shapeItem henter hf ih =>
    obtain ⟨entries, hleads, hhas⟩ := ih
    exact ⟨entries, .item rfl hleads, hhas⟩
  | contentEntry henter hfront hkind hbetween hf ih =>
    obtain ⟨entries, hleads, hhas⟩ := ih
    refine ⟨entries, .entry (Entries.has_behind (Entries.has_later ?_ _ _) _) hleads, hhas⟩
    exact Entries.has_behind (Entries.has_first _ _ _) _
  | contentItem henter hkind hf ih =>
    obtain ⟨entries, hleads, hhas⟩ := ih
    exact ⟨entries, .item rfl hleads, hhas⟩
  | structsItem henter hf ih =>
    obtain ⟨entries, hleads, hhas⟩ := ih
    exact ⟨entries, .item (Items.at?_behind _ _ _) hleads, hhas⟩
  | objectEntry henter hf ih =>
    obtain ⟨entries, hleads, hhas⟩ := ih
    exact ⟨entries, .entry (Entries.has_behind (Entries.has_first _ _ _) _) hleads, hhas⟩
  | fieldsEntry henter hf ih =>
    obtain ⟨entries, hleads, hhas⟩ := ih
    exact ⟨entries, .entry (Entries.has_behind (Entries.has_first _ _ _) _) hleads, hhas⟩

/-! ## What surfaces of the content -/

section

variable {α β σ : Type} {inner : Access} {kind : Kind} {path : List Step} {R : Source → Loaded α}

/-- What is read depends on what is put into the gap: among all that passes the first check, nothing
but what is wrong with it as the content of this kind matters, and the path is this one, unless there
is an error for which the gap does not matter at all. -/
def Surfaces (inner : Access) (kind : Kind) (path : List Step) (R : Source → Loaded α) : Prop :=
  (∃ e, ∀ c : Source, c.Readable inner → R c = .error e) ∨
    ∀ (c : Source) e, c.Readable inner → c.readContent .buffered kind.content = .error e →
      R c = .error ⟨path, e.fault⟩

namespace Surfaces

theorem of_error {e : LoadError} (h : ∀ c : Source, c.Readable inner → R c = .error e) :
    Surfaces inner kind path R := .inl ⟨e, h⟩

/-- What comes before the gap has nothing to do with it. -/
theorem after {x : Loaded β} {f : β → Source → Loaded α}
    (h : ∀ b, x = .ok b → Surfaces inner kind path (f b)) :
    Surfaces inner kind path fun c => x >>= fun b => f b c := by
  cases x with
  | ok b => exact h b rfl
  | error e => exact of_error fun _ _ => rfl

/-- What comes behind the gap is not reached. -/
theorem before (h : Surfaces inner kind path R) (f : Source → α → Loaded β) :
    Surfaces inner kind path fun c => R c >>= f c := by
  rcases h with ⟨e, h⟩ | h
  · exact of_error fun c hc => by simp only [h c hc]; rfl
  · exact .inr fun c e hc he => by simp only [h c e hc he]; rfl

theorem under {step : Step} (h : Surfaces inner kind path R) :
    Surfaces inner kind (step :: path) fun c => (R c).under step := by
  rcases h with ⟨e, h⟩ | h
  · exact of_error fun c hc => by simp only [h c hc]; rfl
  · exact .inr fun c e hc he => by simp only [h c e hc he]; rfl

end Surfaces

/-- Entries under such keys are read one after the other: reading one of them ends in an error, or is
followed by reading the rest with what is known by then. -/
def Sequential (names : List String) (loop : Entries → σ → Loaded α) : Prop :=
  ∀ key value s, (∀ name ∈ names, key ≠ .ok name) →
    ∃ x : Loaded σ, ∀ rest, loop (.next key value rest) s = x >>= loop rest

/-- The entries in front of the gap are read first. -/
theorem Sequential.surfaces {names : List String} {loop : Entries → σ → Loaded α}
    (hloop : Sequential names loop) {g : Source → Entries}
    (h : ∀ s, Surfaces inner kind path fun c => loop (g c) s)
    {front : List (Except Fault String × Source)} (hfront : Apart names front) (s : σ) :
    Surfaces inner kind path fun c => loop (.behind front (g c)) s := by
  induction front generalizing s with
  | nil => exact h s
  | cons entry front ih =>
    obtain ⟨key, value⟩ := entry
    obtain ⟨x, hx⟩ := hloop key value s (hfront (key, value) (by simp))
    simp only [Entries.behind, hx]
    exact .after fun s' _ => ih (fun entry hentry => hfront entry (by simp [hentry])) s'

end

/-! ## Reading up to the gap -/

section

variable {access : Access}

theorem Entries.readStruct_sequential : Sequential []
    fun entries (s : Option (Shape Struct) × Option Metadata) => entries.readStruct access s.1 s.2 := by
  rintro key value ⟨shape, metadata⟩ -
  cases key with
  | error fault => exact ⟨(Loaded.fault fault).under .unknown, fun rest => rfl⟩
  | ok name =>
    by_cases hshape : name = "shape"
    · refine ⟨onlyOnce shape.isSome name >>= fun _ => (value.readShape access).under (.key name) >>=
        fun s => .ok (some s, metadata), fun rest => ?_⟩
      show (if name = "shape" then _ else _) = _
      rw [if_pos hshape]
      simp only [bind_assoc, ok_bind]
    · by_cases hmetadata : name = "metadata"
      · refine ⟨onlyOnce metadata.isSome name >>= fun _ =>
          (value.readMetadata access).under (.key name) >>= fun m => .ok (shape, some m), fun rest => ?_⟩
        show (if name = "shape" then _ else if name = "metadata" then _ else _) = _
        rw [if_neg hshape, if_pos hmetadata]
        simp only [bind_assoc, ok_bind]
      · refine ⟨value.skip.under (.key name) >>= fun _ => .ok (shape, metadata), fun rest => ?_⟩
        show (if name = "shape" then _ else if name = "metadata" then _ else _) = _
        rw [if_neg hshape, if_neg hmetadata]
        simp only [bind_assoc, ok_bind]

theorem Entries.readObject_sequential : Sequential []
    fun entries (s : Option (Table String Struct) × Option UnknownKeys) =>
      entries.readObject access s.1 s.2 := by
  rintro key value ⟨fields, policy⟩ -
  simp only [Entries.readObject_next]
  cases key with
  | error fault => exact ⟨(Loaded.fault fault).under .unknown, fun rest => rfl⟩
  | ok name =>
    by_cases hfields : name = "fields"
    · refine ⟨onlyOnce fields.isSome name >>= fun _ =>
        (value.readFieldTable access).under (.key name) >>= fun table => .ok (some table, policy),
        fun rest => ?_⟩
      show (if name = "fields" then _ else _) = _
      rw [if_pos hfields]
      simp only [bind_assoc, ok_bind]
    · by_cases hpolicy : name = "unknownKeys"
      · refine ⟨onlyOnce policy.isSome name >>= fun _ =>
          (value.readUnknownKeys access).under (.key name) >>= fun u => .ok (fields, some u),
          fun rest => ?_⟩
        show (if name = "fields" then _ else if name = "unknownKeys" then _ else _) = _
        rw [if_neg hfields, if_pos hpolicy]
        simp only [bind_assoc, ok_bind]
      · refine ⟨value.skip.under (.key name) >>= fun _ => .ok (fields, policy), fun rest => ?_⟩
        show (if name = "fields" then _ else if name = "unknownKeys" then _ else _) = _
        rw [if_neg hfields, if_neg hpolicy]
        simp only [bind_assoc, ok_bind]

theorem Entries.readNamed_sequential : Sequential []
    fun entries (table : Table String Struct) => entries.readNamed access table := by
  intro key value table _
  refine ⟨readKey key >>= fun name => (value.readStruct access).under (.key name) >>= fun s =>
    .ok (Table.insert name s table), fun rest => ?_⟩
  simp only [bind_assoc, ok_bind]
  rfl

/-- Before its kind or its content, whatever else a shape has is passed over. -/
theorem Entries.readShape_sequential : Sequential ["kind", "of"]
    fun entries (_ : Unit) => entries.readShape access := by
  intro key value _ hkey
  cases key with
  | error fault => exact ⟨(Loaded.fault fault).under .unknown, fun rest => rfl⟩
  | ok name =>
    have hkind : name ≠ "kind" := fun h => hkey "kind" (by simp) (by rw [h])
    have hof : name ≠ "of" := fun h => hkey "of" (by simp) (by rw [h])
    refine ⟨value.skip.under (.key name), fun rest => ?_⟩
    show (if name = "kind" then _ else if name = "of" then _ else _) = _
    rw [if_neg hkind, if_neg hof]

theorem Entries.readContent_sequential {content : Content} : Sequential ["of"]
    fun entries (_ : Unit) => entries.readContent access content := by
  intro key value _ hkey
  cases key with
  | error fault => exact ⟨(Loaded.fault fault).under .unknown, fun rest => rfl⟩
  | ok name =>
    have hof : name ≠ "of" := fun h => hkey "of" (by simp) (by rw [h])
    refine ⟨onlyOnce (name = "kind") name >>= fun _ => value.skip.under (.key name), fun rest => ?_⟩
    show (onlyOnce (name = "kind") name >>= fun _ => if name = "of" then _ else _) = _
    rw [if_neg hof, bind_assoc]

end

/-! ## Reading the entry with the gap -/

section

variable {access : Access} {v : Source} {rest : Entries}

theorem Entries.readStruct_shape (shape : Option (Shape Struct)) (metadata : Option Metadata) :
    (Entries.next (.ok "shape") v rest).readStruct access shape metadata =
      (onlyOnce shape.isSome "shape" >>= fun _ => (v.readShape access).under (.key "shape") >>= fun s =>
        rest.readStruct access (some s) metadata) := rfl

theorem Entries.readShape_kind : (Entries.next (.ok "kind") v rest).readShape access =
    ((v.readKind access).under (.key "kind") >>= fun kind => rest.readContent access kind.content) := rfl

theorem Entries.readShape_of : (Entries.next (.ok "of") v rest).readShape access =
    ((v.json access).under (.key "of") >>= fun _ => rest.laterKind access >>= fun x =>
      (v.readContent .buffered x.1.content).withoutPath >>= fun shape =>
        x.2.noMore >>= fun _ => .ok shape) := rfl

theorem Entries.readContent_of (content : Content) :
    (Entries.next (.ok "of") v rest).readContent access content =
      ((v.readContent access content).under (.key "of") >>= fun shape =>
        rest.noMore >>= fun _ => .ok shape) := rfl

theorem Entries.readObject_fields (fields : Option (Table String Struct))
    (policy : Option UnknownKeys) : (Entries.next (.ok "fields") v rest).readObject access fields policy =
      (onlyOnce fields.isSome "fields" >>= fun _ =>
        (v.readFieldTable access).under (.key "fields") >>= fun table =>
          rest.readObject access (some table) policy) := by
  rw [Entries.readObject_next]
  rfl

theorem Entries.readNamed_ok (name : String) (table : Table String Struct) :
    (Entries.next (.ok name) v rest).readNamed access table =
      ((v.readStruct access).under (.key name) >>= fun s =>
        rest.readNamed access (Table.insert name s table)) := rfl

end

/-! ## Errors in the gap -/

/-- What surfaces from a document of this role. -/
def Role.Surfaces (inner : Access) (kind : Kind) (path : List Step) (role : Role) (access : Access)
    (f : Source → Source) : Prop :=
  match role with
  | .struct => ShapeSchema.Surfaces inner kind path fun c => (f c).readStruct access
  | .shape => ShapeSchema.Surfaces inner kind path fun c => (f c).readShape access
  | .structs => ∀ k, ShapeSchema.Surfaces inner kind path fun c => (f c).readContent access (.structs k)
  | .object => ShapeSchema.Surfaces inner kind path fun c => (f c).readContent access .fields
  | .fields => ShapeSchema.Surfaces inner kind path fun c => (f c).readFieldTable access
  | _ => True

section

variable {inner outer access : Access} {kind : Kind} {path : List Step} {f : Source → Source}

/-- Content surfaces from the shape that it stands in, whatever the kind of that. -/
theorem Role.Surfaces.content {outerKind : Kind}
    (h : Role.Surfaces inner kind path outerKind.contentRole access f)
    (hf : EarlyContent inner kind outerKind.contentRole access f path) :
    ShapeSchema.Surfaces inner kind path fun c => (f c).readContent access outerKind.content := by
  unfold Kind.contentRole at h hf
  generalize outerKind.content = content at h hf ⊢
  cases content with
  | nothing leaf => cases hf
  | literal => cases hf
  | struct w =>
    simp only [Source.readContent_struct]
    exact Surfaces.before h _
  | structs k => exact h k
  | fields => exact h

/-- Entering a list or an object has nothing to do with the gap. -/
theorem Surfaces.enter {α : Type} {R : Access → Source → Loaded α} (henter : outer.enter = .ok access)
    (h : Surfaces inner kind path (R access)) :
    Surfaces inner kind path fun c => outer.enter >>= fun access => R access c := by
  simp only [henter, ok_bind]
  exact h

/-- The content passes the check, the kind is found, and the content is read without its path. -/
theorem Surfaces.gap {rest after : Entries} (hkind : rest.laterKind inner = .ok (kind, after)) :
    Surfaces inner kind [] fun c => (Entries.next (.ok "of") c rest).readShape inner := by
  refine .inr fun c e ⟨w, hw⟩ he => ?_
  simp only [Entries.readShape_of, hw, hkind, ok_bind]
  show ((c.readContent .buffered kind.content).withoutPath >>= _) = _
  rw [he]
  rfl

theorem Surfaces.items (h : Surfaces inner kind path fun c => (f c).readStruct access)
    (front : List Source) (rest : Items) (start : Nat) :
    Surfaces inner kind (.index (start + front.length) :: path)
      fun c => (Items.behind front (.next (f c) rest)).readStructs access start := by
  induction front generalizing start with
  | nil => exact .before (.under h) _
  | cons v front ih =>
    have hlater := ih (start + 1)
    rw [Nat.add_right_comm, Nat.add_assoc] at hlater
    exact .after fun _ _ => .before hlater _

/-- **Errors surface.** -/
theorem EarlyContent.surfaces {role : Role} (h : EarlyContent inner kind role outer f path) :
    role.Surfaces inner kind path outer f := by
  induction h with
  | here henter hfront hkind =>
    exact .enter henter (Entries.readShape_sequential.surfaces (fun _ => .gap hkind) hfront ())
  | shapeEntry henter hf ih =>
    refine .enter henter (Entries.readStruct_sequential.surfaces (fun s => ?_) (by simp [Apart])
      (none, none))
    simp only [Entries.readStruct_shape]
    exact .after fun _ _ => .before (.under ih) _
  | shapeItem henter hf ih => exact .enter henter (.before (.under ih) _)
  | contentEntry henter hfront hkind hbetween hf ih =>
    refine .enter henter (Entries.readShape_sequential.surfaces (fun _ => ?_) hfront ())
    simp only [Entries.readShape_kind]
    refine .after fun k hk => ?_
    obtain rfl := Except.ok.inj (hkind.symm.trans (Loaded.under_eq_ok.mp hk))
    refine Entries.readContent_sequential.surfaces (fun _ => ?_) hbetween ()
    simp only [Entries.readContent_of]
    exact .before (.under (ih.content hf)) _
  | contentItem henter hkind hf ih =>
    refine .enter henter (.after fun k hk => ?_)
    obtain rfl := Except.ok.inj (hkind.symm.trans (Loaded.under_eq_ok.mp hk))
    exact .before (.under (ih.content hf)) _
  | @structsItem outer access front rest f path henter hf ih =>
    intro k
    have hitems := Surfaces.items ih front rest 0
    rw [Nat.zero_add] at hitems
    exact .enter henter (.before hitems _)
  | objectEntry henter hf ih =>
    refine .enter henter (Entries.readObject_sequential.surfaces (fun s => ?_) (by simp [Apart])
      (none, none))
    simp only [Entries.readObject_fields]
    exact .after fun _ _ => .before (.under ih) _
  | fieldsEntry henter hf ih =>
    refine .enter henter (Entries.readNamed_sequential.surfaces (fun table => ?_) (by simp [Apart]) [])
    simp only [Entries.readNamed_ok]
    exact .before (.under ih) _

end

/-! ## Paths of load errors -/

/-- **Paths.** The path of an error in the data of a struct or of settings locates what the error is
about, if the document stands in full. And where the content of a shape stands before its kind, with
no such shape further out, what is wrong with the content is reported at that shape: what does not
pass as a JSON value is no error in the data, and for all the rest the error has the path of the
shape, unless loading fails anyway, for whatever content. -/
theorem load_errors_name_places :
    (∀ (bytes : List UInt8) (e : LoadError), (Source.ofBytes bytes).Whole →
      Struct.loadBytes bytes = .error e → e.fault.category = .data →
        (Source.ofBytes bytes).Locates e.path) ∧
    (∀ (bytes : List UInt8) (e : LoadError), (Source.ofBytes bytes).Whole →
      loadBytes Source.readConfig bytes = .error e → e.fault.category = .data →
        (Source.ofBytes bytes).Locates e.path) ∧
    ∀ (inner : Access) (kind : Kind) (f : Source → Source) (path : List Step),
      EarlyContent inner kind .struct .document f path →
      (∀ c, ∃ entries, (f c).LeadsTo path (.record entries) ∧ entries.Has "of" c) ∧
      (∀ (bytes : List UInt8) c e, Source.ofBytes bytes = f c → (f c).Whole →
        c.json inner = .error e → e.fault.category ≠ .data) ∧
      ((∃ e, ∀ (bytes : List UInt8) c, Source.ofBytes bytes = f c → c.Readable inner →
          Struct.loadBytes bytes = .error e) ∨
        ∀ (bytes : List UInt8) c e, Source.ofBytes bytes = f c → c.Readable inner →
          c.readContent .buffered kind.content = .error e →
            Struct.loadBytes bytes = .error ⟨path, e.fault⟩) := by
  refine ⟨?_, ?_, fun inner kind f path hf => ⟨hf.leadsTo, ?_, ?_⟩⟩
  · exact fun bytes e hwhole => Source.readStruct_blames _ (Source.sound_ofBytes hwhole) e
  · exact fun bytes e hwhole => Source.readConfig_blames _ (Source.sound_ofBytes hwhole) e
  · intro bytes c e hbytes hwhole he hdata
    rw [← hbytes] at hwhole
    have hsound := Source.sound_ofBytes hwhole
    rw [hbytes] at hsound
    obtain ⟨entries, hleads, hhas⟩ := hf.leadsTo c
    have hc : c.Sound := Entries.Sound.has (hleads.sound hsound) hhas
    exact Source.json_blames c (P := fun _ => False) hc e he hdata
  · have hload : ∀ (bytes : List UInt8) c, Source.ofBytes bytes = f c →
        Struct.loadBytes bytes = (f c).readStruct .document := fun bytes c h => congrArg _ h
    rcases hf.surfaces with ⟨e, h⟩ | h
    · exact .inl ⟨e, fun bytes c hbytes hc => (hload bytes c hbytes).trans (h c hc)⟩
    · exact .inr fun bytes c e hbytes hc he => (hload bytes c hbytes).trans (h c e hc he)

/-! ### Three documents -/

/-- A shape whose content stands before its kind, which is that of an array. -/
def earlyArray (content : Source) : Source :=
  .record (.next (.ok "shape") (.record (.next (.ok "of") content
    (.next (.ok "kind") (.string (.ok "array")) (.done .closed)))) (.done .closed))

/-- The text of such a struct, around the text of the content. -/
def earlyArrayText (content : String) : String :=
  "\x7b\"shape\":\x7b\"of\":" ++ content ++ ",\"kind\":\"array\"\x7d\x7d"

theorem earlyContent_earlyArray :
    EarlyContent (.streamed 126) .array .struct .document earlyArray [.key "shape"] := by
  have henter : Access.document.enter = .ok (.streamed 127) := rfl
  have hinner : (Access.streamed 127).enter = .ok (.streamed 126) := rfl
  have hkind : (Entries.next (.ok "kind") (.string (.ok "array")) (.done .closed)).laterKind
      (.streamed 126) = .ok (.array, .done .closed) := rfl
  have hfront : Apart ["kind", "of"] [] := fun _ h => nomatch h
  exact @EarlyContent.shapeEntry _ _ _ _ [] (.done .closed) _ _ henter (.here hinner hfront hkind)

/-- A literal that is named without its content is located as that content; a limit that is no number
is located under its key; and the mistake deep inside the array is reported at the shape. -/
theorem load_errors_name_places_array :
    (Source.ofBytes (Source.bytesOf "[[\"literal\",\"int\"]]")).Locates
      [.index 0, .index 1, .key "int"] ∧
    (Source.ofBytes (Source.bytesOf "\x7b\"maxDepth\":true\x7d")).Locates [.key "maxDepth"] ∧
    Struct.loadBytes (Source.bytesOf (earlyArrayText "[[\"int\",[]]]")) =
      .error ⟨[.key "shape"], .wrongType .sequence "unit variant Shape::Int"⟩ := by
  obtain ⟨hstruct, hconfig, hearly⟩ := load_errors_name_places
  obtain ⟨-, -, hreport⟩ := hearly _ _ _ _ earlyContent_earlyArray
  refine ⟨?_, ?_, ?_⟩
  · exact hstruct _ ⟨[.index 0, .index 1, .key "int"], .wrongType .unitVariant "newtype variant"⟩
      rfl rfl rfl
  · exact hconfig _ ⟨[.key "maxDepth"], .wrongType (.bool true) "usize"⟩ rfl rfl rfl
  · have hok : Struct.loadBytes (Source.bytesOf (earlyArrayText "[[\"int\",null]]")) =
        .ok (.mk (.wrapper .array .int) {}) := rfl
    rcases hreport with ⟨e, h⟩ | h
    · -- With other content the struct is loaded, so the gap does matter.
      have hfails := h (Source.bytesOf (earlyArrayText "[[\"int\",null]]")) _ rfl ⟨_, rfl⟩
      rw [hok] at hfails
      cases hfails
    · exact h _ _ ⟨[.index 0, .index 1], .wrongType .sequence "unit variant Shape::Int"⟩ rfl ⟨_, rfl⟩ rfl

end ShapeSchema
