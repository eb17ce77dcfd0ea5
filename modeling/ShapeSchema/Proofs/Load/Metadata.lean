import ShapeSchema.Load.Metadata
import ShapeSchema.Proofs.Load.Choice
import ShapeSchema.Proofs.Struct.Storable

/-!
# Loading what metadata is written as

Ids are those of their texts. Metadata that is written is loaded as it was, and metadata that is
loaded, in whatever form it stands in the text, loses nothing when it is written.
-/

namespace ShapeSchema

/-! ## Ids -/

namespace MetadataId

theorem splitColon_append {space : List Char} (h : ':' ∉ space) (name : List Char) :
    splitColon (space ++ ':' :: name) = some (space, name) := by
  induction space with
  | nil => rfl
  | cons c rest ih =>
    obtain ⟨hc, hrest⟩ : c ≠ ':' ∧ ':' ∉ rest := by simpa [eq_comm] using h
    rw [List.cons_append, splitColon, if_neg hc, ih hrest]
    rfl

theorem splitColon_eq_some {cs space name : List Char} (h : splitColon cs = some (space, name)) :
    ':' ∉ space ∧ cs = space ++ ':' :: name := by
  induction cs generalizing space with
  | nil => cases h
  | cons c rest ih =>
    rw [splitColon] at h
    split at h
    · rename_i hc
      obtain ⟨rfl, rfl⟩ : [] = space ∧ rest = name := by simpa using h
      simp [hc]
    · rename_i hc
      obtain ⟨⟨before, after⟩, hsplit, heq⟩ := Option.map_eq_some_iff.mp h
      obtain ⟨rfl, rfl⟩ : c :: before = space ∧ after = name := by simpa using heq
      obtain ⟨hbefore, rfl⟩ := ih hsplit
      exact ⟨by simp [hbefore, Ne.symm hc], rfl⟩

/-- A valid id is the one that its text is read as. -/
theorem ofText?_text {id : MetadataId} (h : id.Valid) : ofText? id.text = some id := by
  obtain ⟨hspace, hcolon, hname⟩ := h
  have hchars : id.text.toList = id.space.toList ++ ':' :: id.name.toList := by
    simp [text]
  rw [ofText?, hchars, splitColon_append hcolon]
  simp [hspace, hname]

theorem valid_of_ofText? {text : String} {id : MetadataId} (h : ofText? text = some id) :
    id.Valid := by
  rw [ofText?] at h
  split at h
  · rename_i space name hsplit
    split at h
    · cases h
    · rename_i hempty
      obtain rfl := Option.some.inj h
      obtain ⟨hcolon, -⟩ := splitColon_eq_some hsplit
      exact ⟨by simpa using fun hs => hempty (.inl hs), by simpa using hcolon,
        by simpa using fun hn => hempty (.inr hn)⟩
  · cases h

theorem load_text {id : MetadataId} (h : id.Valid) : load id.text = .ok id := by
  rw [load, ofText?_text h]

theorem valid_of_load {text : String} {id : MetadataId} (h : load text = .ok id) : id.Valid := by
  rw [load] at h
  split at h
  · rename_i id' hid
    obtain rfl := Except.ok.inj h
    exact valid_of_ofText? hid
  · cases h

end MetadataId

/-! ## Reading back -/

section

variable {access : Access} {room : Nat}

theorem Deprecation.source_read {d : Deprecation} (hroom : d.written.depth < room) :
    d.written.source.readDeprecation? (.streamed room) = .ok (some d) := by
  cases d with
  | flagged => rfl
  | withMessage message =>
    match room, hroom with
    | room + 2, _ => rfl

theorem Json.source_readDefault? {v : Json} (hv : v.WellFormed) (hnull : v ≠ .null)
    (hroom : access.Admits v.depth) : v.source.readDefault? access = .ok (some v) := by
  have hjson : v.source.json access = .ok v := source_json hv hroom
  have hread : v.source.readDefault? access = v.source.json access >>= fun w => .ok (some w) := by
    cases v with
    | null => exact absurd rfl hnull
    | _ => rfl
  rw [hread, hjson]
  rfl

theorem Entries.annotations_next (key : String) (value : Source) (rest : Entries)
    (table : Table MetadataId Json) :
    (Entries.next (.ok key) value rest).annotations access table =
      ((MetadataId.load key).under (.key key) >>= fun id =>
        (value.json access).under (.key key) >>= fun v =>
          rest.annotations access (Table.insert id v table)) := rfl

theorem Metadata.source_annotations {annotations : List (MetadataId × Json)}
    (h : ∀ entry ∈ annotations, entry.1.Valid ∧ entry.2.source.json access = .ok entry.2)
    (table : Table MetadataId Json) :
    (Json.sourceOfEntries (annotations.map fun (id, v) => (id.text, v))).annotations access table =
      .ok (Table.merge table annotations) := by
  -- For any table: each annotation that is read is in it for the next.
  induction annotations generalizing table with
  | nil => rfl
  | cons entry rest ih =>
    obtain ⟨id, v⟩ := entry
    obtain ⟨hid, hv⟩ := h (id, v) (by simp)
    rw [List.map_cons, Json.sourceOfEntries, Entries.annotations_next, MetadataId.load_text hid, hv]
    exact ih (fun e he => h e (by simp [he])) _

/-- The annotations as they are written, if there are any. -/
def Metadata.writtenAnnotations (m : Metadata) : Option Json :=
  if m.annotations.isEmpty then none
  else some (.object (m.annotations.map fun (id, v) => (id.text, v)))

theorem Metadata.written_eq (m : Metadata) :
    m.written = .object (presentUnder "deprecation" (m.deprecation.map Deprecation.written) ++
      (presentUnder "default" m.default ++ (presentUnder "annotations" m.writtenAnnotations ++ []))) := by
  rw [List.append_nil, ← List.append_assoc]
  rfl

theorem Metadata.depth_presentUnder {key : String} {o : Option Json} {k : Nat} :
    (∀ entry ∈ presentUnder key o, entry.2.depth ≤ k) ↔ ∀ v, o = some v → v.depth ≤ k := by
  cases o <;> simp [presentUnder]

/-- Written metadata is no deeper than `k + 1` if its parts are no deeper than `k`. -/
theorem Metadata.depth_written_le {m : Metadata} {k : Nat} :
    m.written.depth ≤ k + 1 ↔ (∀ d, m.deprecation = some d → d.written.depth ≤ k) ∧
      (∀ v, m.default = some v → v.depth ≤ k) ∧ ∀ v, m.writtenAnnotations = some v → v.depth ≤ k := by
  rw [written_eq, Json.depth_object_le, List.append_nil, List.forall_mem_append,
    List.forall_mem_append, depth_presentUnder, depth_presentUnder, depth_presentUnder]
  simp

theorem Metadata.source_readAnnotations {m : Metadata} (hm : m.WellFormed) (hids : m.Keeps)
    {v : Json} (hv : m.writtenAnnotations = some v) (hroom : access.Admits v.depth) :
    v.source.readAnnotations access = .ok m.annotations := by
  rw [writtenAnnotations] at hv
  split at hv
  · cases hv
  · obtain rfl := Option.some.inj hv
    obtain ⟨access', henter, hroom'⟩ := Access.Admits.enter hroom
    have hentries : ∀ entry ∈ m.annotations,
        entry.1.Valid ∧ entry.2.source.json access' = .ok entry.2 := by
      intro entry hentry
      refine ⟨hids.2 entry hentry, Json.source_json (hm.2.2 entry hentry) (hroom'.mono ?_)⟩
      exact Json.depthOfEntries_le.mp (Nat.le_refl _) (entry.1.text, entry.2)
        (List.mem_map.mpr ⟨entry, hentry, rfl⟩)
    show (access.enter >>= fun access => _) = _
    rw [henter, ok_bind, source_annotations hentries]
    exact congrArg Except.ok hm.2.1.ofList_eq

/-- What has been read after the deprecation, if there is one. -/
def MetadataParts.afterDeprecation (parts : MetadataParts) (m : Metadata) : MetadataParts :=
  if m.deprecation.isSome then { parts with deprecation := some m.deprecation } else parts

/-- What has been read after the default, if there is one. -/
def MetadataParts.afterDefault (parts : MetadataParts) (m : Metadata) : MetadataParts :=
  if m.default.isSome then { parts with default := some m.default } else parts

/-- What has been read after the annotations, if there are any. -/
def MetadataParts.afterAnnotations (parts : MetadataParts) (m : Metadata) : MetadataParts :=
  if m.writtenAnnotations.isSome then { parts with annotations := some m.annotations } else parts

theorem MetadataParts.metadata_after (m : Metadata) :
    (((({} : MetadataParts).afterDeprecation m).afterDefault m).afterAnnotations m).metadata = m := by
  obtain ⟨deprecation, default, annotations⟩ := m
  cases deprecation <;> cases default <;> cases annotations <;> rfl

/-- Read the fields of metadata one after the other. -/
abbrev Entries.readParts (access : Access) (entries : Entries) (parts : MetadataParts) :
    Loaded MetadataParts :=
  entries.readFields access MetadataParts.fields false parts

theorem Metadata.readParts_deprecation {m : Metadata} {parts : MetadataParts}
    (rest : List (String × Json)) (hset : parts.deprecation = none)
    (hroom : ∀ d, m.deprecation = some d → d.written.depth < room) :
    (Json.sourceOfEntries (presentUnder "deprecation" (m.deprecation.map Deprecation.written) ++
        rest)).readParts (.streamed room) parts =
      (Json.sourceOfEntries rest).readParts (.streamed room) (parts.afterDeprecation m) := by
  rw [MetadataParts.afterDeprecation, ← Option.isSome_map]
  refine Entries.readFields_presentUnder rfl rest (by simp [hset]) fun v hv => ?_
  obtain ⟨d, hd, rfl⟩ := Option.map_eq_some_iff.mp hv
  show (d.written.source.readDeprecation? (.streamed room) >>= _) = _
  rw [Deprecation.source_read (hroom d hd), hd]
  rfl

theorem Metadata.readParts_default {m : Metadata} {parts : MetadataParts}
    (rest : List (String × Json)) (hset : parts.default = none) (hm : m.WellFormed)
    (hnull : m.default ≠ some .null) (hroom : ∀ v, m.default = some v → access.Admits v.depth) :
    (Json.sourceOfEntries (presentUnder "default" m.default ++ rest)).readParts access parts =
      (Json.sourceOfEntries rest).readParts access (parts.afterDefault m) := by
  refine Entries.readFields_presentUnder rfl rest (by simp [hset]) fun v hv => ?_
  have hv_ne : v ≠ .null := fun h => hnull (h ▸ hv)
  show (v.source.readDefault? access >>= _) = _
  rw [Json.source_readDefault? (hm.1 v hv) hv_ne (hroom v hv), hv]
  rfl

theorem Metadata.readParts_annotations {m : Metadata} {parts : MetadataParts}
    (rest : List (String × Json)) (hset : parts.annotations = none) (hm : m.WellFormed)
    (hkeeps : m.Keeps) (hroom : ∀ v, m.writtenAnnotations = some v → access.Admits v.depth) :
    (Json.sourceOfEntries (presentUnder "annotations" m.writtenAnnotations ++
        rest)).readParts access parts =
      (Json.sourceOfEntries rest).readParts access (parts.afterAnnotations m) := by
  refine Entries.readFields_presentUnder rfl rest (by simp [hset]) fun v hv => ?_
  show (v.source.readAnnotations access >>= _) = _
  rw [source_readAnnotations hm hkeeps hv (hroom v hv)]
  rfl

/-- **Reading back.** Metadata that is written is loaded as it was. -/
theorem Metadata.source_read {m : Metadata} {n : Nat} (hm : m.Fits n) (hempty : m.isEmpty = false)
    (hroom : n < room) : m.written.source.readMetadata (.streamed room) = .ok m := by
  obtain ⟨hwell, hkeeps, hdepth⟩ := hm
  obtain ⟨k, rfl, -⟩ := Json.depth_object_le_iff.mp (hdepth hempty)
  obtain ⟨hdeprecation, hdefault, hannotations⟩ := depth_written_le.mp (hdepth hempty)
  match room, hroom with
  | room + 2, hroom =>
    have hk : ∀ {d}, d ≤ k → d < room + 1 := fun h =>
      Nat.lt_of_le_of_lt h (Nat.lt_of_succ_lt_succ hroom)
    have hadmits : ∀ {d}, d ≤ k → (Access.streamed (room + 1)).Admits d := hk
    rw [written_eq]
    show ((Json.sourceOfEntries (presentUnder "deprecation" (m.deprecation.map Deprecation.written) ++
      _)).readParts (.streamed (room + 1)) {} >>= fun parts => .ok parts.metadata) = _
    rw [readParts_deprecation _ rfl fun d hd => hk (hdeprecation d hd),
      readParts_default _ ?_ hwell hkeeps.1 fun v hv => hadmits (hdefault v hv),
      readParts_annotations _ ?_ hwell hkeeps fun v hv => hadmits (hannotations v hv)]
    · exact congrArg Except.ok (MetadataParts.metadata_after m)
    · cases hd : m.deprecation <;> cases hv : m.default <;>
        simp [MetadataParts.afterDeprecation, MetadataParts.afterDefault, hd, hv]
    · cases hd : m.deprecation <;> simp [MetadataParts.afterDeprecation, hd]

end

/-! ## What is loaded -/

theorem Metadata.writtenAnnotations_le {m : Metadata} {k : Nat} :
    (∀ v, m.writtenAnnotations = some v → v.depth ≤ k + 1) ↔
      ∀ entry ∈ m.annotations, entry.2.depth ≤ k := by
  rw [writtenAnnotations]
  cases m.annotations with
  | nil => simp
  | cons entry rest =>
    simp only [List.isEmpty_cons, Bool.false_eq_true, if_false, Option.some.injEq, forall_eq',
      Json.depth_object_le, List.forall_mem_map]

/-- Metadata fits if its three parts do. -/
theorem Metadata.fits_succ {m : Metadata} {b : Nat} :
    m.Fits (b + 1) ↔ (∀ d, m.deprecation = some d → d.written.depth ≤ b) ∧
      (∀ v, m.default = some v → v.Fits b ∧ v ≠ .null) ∧
      Table.Distinct m.annotations ∧ (∀ entry ∈ m.annotations, entry.1.Valid ∧ entry.2.WellFormed) ∧
      ∀ v, m.writtenAnnotations = some v → v.depth ≤ b := by
  have hempty : m.isEmpty = true → (∀ d, m.deprecation = some d → d.written.depth ≤ b) ∧
      (∀ v, m.default = some v → v.depth ≤ b) ∧ ∀ v, m.writtenAnnotations = some v → v.depth ≤ b := by
    obtain ⟨deprecation, default, annotations⟩ := m
    intro h
    simp only [isEmpty, Bool.and_eq_true, Option.isNone_iff_eq_none] at h
    obtain ⟨⟨rfl, rfl⟩, h⟩ := h
    simp [writtenAnnotations, h]
  have hdepth : (m.isEmpty = false → m.written.depth ≤ b + 1) ↔
      (∀ d, m.deprecation = some d → d.written.depth ≤ b) ∧
      (∀ v, m.default = some v → v.depth ≤ b) ∧ ∀ v, m.writtenAnnotations = some v → v.depth ≤ b := by
    rw [depth_written_le]
    cases hm : m.isEmpty with
    | true => exact ⟨fun _ => hempty hm, fun _ h => nomatch h⟩
    | false => exact ⟨fun h => h rfl, fun h _ => h⟩
  rw [Fits, hdepth]
  constructor
  · intro h
    obtain ⟨⟨hdefault, hdistinct, hvalues⟩, ⟨hnull, hids⟩, hd, hv, ha⟩ := h
    refine ⟨hd, fun v h => ⟨⟨hdefault v h, hv v h⟩, fun heq => hnull (heq ▸ h)⟩, hdistinct, ?_, ha⟩
    exact fun entry hentry => ⟨hids entry hentry, hvalues entry hentry⟩
  · intro h
    obtain ⟨hd, hdefault, hdistinct, hentries, ha⟩ := h
    exact ⟨⟨fun v h => (hdefault v h).1.1, hdistinct, fun e he => (hentries e he).2⟩,
      ⟨fun h => (hdefault _ h).2 rfl, fun e he => (hentries e he).1⟩, hd,
      fun v h => (hdefault v h).1.2, ha⟩

section

variable {access : Access}

theorem Source.readDeprecation?_fits {v : Source} {o : Option Deprecation}
    (h : v.readDeprecation? access = .ok o) : ∀ d, o = some d → d.written.depth ≤ access.bound v.depth := by
  rintro d rfl
  have hread : v.readDeprecation access = .ok d := by
    rw [readDeprecation?.eq_def] at h
    split at h
    · cases h
    · cases h
    · obtain ⟨d', hd', h⟩ := bind_eq_ok.mp h
      obtain rfl := Option.some.inj (Except.ok.inj h)
      exact hd'
  have hle : d.written.depth ≤ 1 := by
    cases d with
    | flagged => exact Nat.zero_le 1
    | withMessage message => exact Nat.le_refl 1
  rcases Source.readChoice_eq_ok hread with ⟨name, hname⟩ | ⟨hbound, -⟩
  · obtain ⟨-, rfl⟩ : name = "flagged" ∧ d = .flagged := by
      simpa [Deprecation.variants] using hname
    exact Nat.zero_le _
  · exact Nat.le_trans hle hbound

theorem Source.json_ne_null {v : Source} (hv : v ≠ .null) : v.json access ≠ .ok .null := by
  intro h
  cases v with
  | null => exact hv rfl
  | bool b => cases h
  | number n =>
    obtain ⟨_, -, h⟩ := bind_eq_ok.mp h
    cases h
  | string s =>
    obtain ⟨_, -, h⟩ := bind_eq_ok.mp h
    cases h
  | list items =>
    obtain ⟨_, -, h⟩ := bind_eq_ok.mp h
    obtain ⟨_, -, h⟩ := bind_eq_ok.mp h
    cases h
  | record entries =>
    obtain ⟨_, -, h⟩ := bind_eq_ok.mp h
    obtain ⟨_, -, h⟩ := bind_eq_ok.mp h
    cases h
  | broken opening reading skipping => cases h

theorem Source.readDefault?_fits {v : Source} (hrange : v.InRange) {o : Option Json}
    (h : v.readDefault? access = .ok o) :
    ∀ w, o = some w → w.Fits (access.bound v.depth) ∧ w ≠ .null := by
  rintro w rfl
  have hne : v ≠ .null := by
    rintro rfl
    cases h
  have hjson : v.json access = .ok w := by
    rw [readDefault?.eq_def] at h
    split at h
    · cases h
    · obtain ⟨w', hw', h⟩ := bind_eq_ok.mp h
      obtain rfl := Option.some.inj (Except.ok.inj h)
      exact hw'
  obtain ⟨hfits, hbound⟩ := Source.json_fits v hrange hjson
  refine ⟨hfits.mono hbound, ?_⟩
  rintro rfl
  exact Source.json_ne_null hne hjson

theorem Entries.annotations_fit {b : Nat} : ∀ (entries : Entries) {table out : Table MetadataId Json},
    entries.InRange → access.bound entries.depth ≤ b → entries.annotations access table = .ok out →
      Table.Distinct table → (∀ entry ∈ table, entry.1.Valid ∧ entry.2.Fits b) →
      Table.Distinct out ∧ ∀ entry ∈ out, entry.1.Valid ∧ entry.2.Fits b
  | .next key value rest, table, out, hrange, hb, h, hdistinct, htable => by
    obtain ⟨name, -, h⟩ := bind_eq_ok.mp h
    obtain ⟨id, hid, h⟩ := bind_eq_ok.mp h
    obtain ⟨w, hw, h⟩ := bind_eq_ok.mp h
    obtain ⟨hfits, hbound⟩ := Source.json_fits value hrange.1 (Loaded.under_eq_ok.mp hw)
    obtain ⟨hleft, hright⟩ := Entries.bound_next_le.mp hb
    refine annotations_fit rest hrange.2 hright h (Table.distinct_insert hdistinct)
      fun entry hentry => ?_
    rcases Table.mem_insert hentry with rfl | hentry
    · exact ⟨MetadataId.valid_of_load (Loaded.under_eq_ok.mp hid),
        hfits.mono (Nat.le_trans hbound hleft)⟩
    · exact htable entry hentry
  | .done ending, table, out, _, _, h, hdistinct, htable => by
    obtain ⟨_, -, h⟩ := bind_eq_ok.mp h
    obtain rfl := Except.ok.inj h
    exact ⟨hdistinct, htable⟩
  | .brokenKey reading skipping, table, out, _, _, h, _, _ => by cases h
  | .notKey, table, out, _, _, h, _, _ => by cases h
  | .noColon key fault, table, out, _, _, h, hdistinct, htable => by
    obtain ⟨_, -, h⟩ := bind_eq_ok.mp h
    obtain rfl := Except.ok.inj h
    exact ⟨hdistinct, htable⟩

theorem Source.readAnnotations_fit {v : Source} (hrange : v.InRange) {out : Table MetadataId Json}
    (h : v.readAnnotations access = .ok out) : ∃ b, access.bound v.depth = b + 1 ∧
      Table.Distinct out ∧ ∀ entry ∈ out, entry.1.Valid ∧ entry.2.Fits b := by
  cases v with
  | record entries =>
    obtain ⟨access', henter, h⟩ := bind_eq_ok.mp h
    obtain ⟨hdistinct, hfits⟩ := Entries.annotations_fit entries hrange (Nat.le_refl _) h
      List.nodup_nil (by simp)
    exact ⟨_, (Access.bound_enter henter _).symm, hdistinct, hfits⟩
  | number n => cases n <;> cases h
  | string s => cases s <;> cases h
  | _ => cases h

/-- Reading one of its fields keeps metadata fitting. -/
theorem MetadataParts.read_fits {b : Nat} {f : Field MetadataParts} (hf : f ∈ MetadataParts.fields)
    (v : Source) (parts parts' : MetadataParts) (hrange : v.InRange) (hb : access.bound v.depth ≤ b)
    (h : f.read access v parts = .ok parts') (hparts : parts.metadata.Fits (b + 1)) :
    parts'.metadata.Fits (b + 1) := by
  obtain ⟨hdeprecation, hdefault, hdistinct, hentries, hdepth⟩ := Metadata.fits_succ.mp hparts
  simp only [fields, List.mem_cons, List.not_mem_nil, or_false] at hf
  rcases hf with rfl | rfl | rfl
  · obtain ⟨o, ho, h⟩ := bind_eq_ok.mp h
    obtain rfl := Except.ok.inj h
    refine Metadata.fits_succ.mpr ⟨fun d hd => ?_, hdefault, hdistinct, hentries, hdepth⟩
    exact Nat.le_trans (Source.readDeprecation?_fits ho d hd) hb
  · obtain ⟨o, ho, h⟩ := bind_eq_ok.mp h
    obtain rfl := Except.ok.inj h
    refine Metadata.fits_succ.mpr ⟨hdeprecation, fun w hw => ?_, hdistinct, hentries, hdepth⟩
    obtain ⟨hfits, hnull⟩ := Source.readDefault?_fits hrange ho w hw
    exact ⟨hfits.mono hb, hnull⟩
  · obtain ⟨out, hout, h⟩ := bind_eq_ok.mp h
    obtain rfl := Except.ok.inj h
    obtain ⟨k, hk, hdistinct', hfits⟩ := Source.readAnnotations_fit hrange hout
    refine Metadata.fits_succ.mpr ⟨hdeprecation, hdefault, hdistinct',
      fun entry hentry => ⟨(hfits entry hentry).1, (hfits entry hentry).2.1⟩, fun w hw => ?_⟩
    have hle : w.depth ≤ k + 1 :=
      Metadata.writtenAnnotations_le.mpr (fun entry hentry => (hfits entry hentry).2.2) w hw
    exact Nat.le_trans hle (hk ▸ hb)

theorem Items.readParts_fits {b : Nat} : ∀ (fields : List (Field MetadataParts)) {taken : Nat}
    (items : Items) {parts parts' : MetadataParts}, (∀ f ∈ fields, f ∈ MetadataParts.fields) →
      items.InRange → access.bound items.depth ≤ b →
      items.readParts access fields taken parts = .ok parts' →
      parts.metadata.Fits (b + 1) → parts'.metadata.Fits (b + 1)
  | [], taken, items, parts, parts', _, _, _, h, hparts => by
    obtain ⟨_, -, h⟩ := bind_eq_ok.mp h
    obtain rfl := Except.ok.inj h
    exact hparts
  | f :: fields, taken, .done ending, parts, parts', _, _, _, h, hparts => by
    obtain ⟨_, -, h⟩ := bind_eq_ok.mp h
    obtain rfl := Except.ok.inj h
    exact hparts
  | f :: fields, taken, .next value rest, parts, parts', hfields, hrange, hb, h, hparts => by
    obtain ⟨next, hnext, h⟩ := bind_eq_ok.mp h
    obtain ⟨hleft, hright⟩ := Items.bound_next_le.mp hb
    exact readParts_fits fields rest (fun g hg => hfields g (by simp [hg])) hrange.2 hright h
      (MetadataParts.read_fits (hfields f (by simp)) value parts next hrange.1 hleft
        (Loaded.under_eq_ok.mp hnext) hparts)

/-- **Whatever is loaded fits.** Metadata that is loaded is no deeper, when it is written, than the
way of reading allows. -/
theorem Source.readMetadata_fits {v : Source} (hrange : v.InRange) {m : Metadata}
    (h : v.readMetadata access = .ok m) : m.Fits (access.bound v.depth) := by
  cases v with
  | list items =>
    obtain ⟨access', henter, h⟩ := bind_eq_ok.mp h
    obtain ⟨parts, hparts, h⟩ := bind_eq_ok.mp h
    obtain rfl := Except.ok.inj h
    rw [depth, ← Access.bound_enter henter]
    exact Items.readParts_fits _ items (fun f hf => hf) hrange (Nat.le_refl _) hparts
      (Metadata.fits_empty _)
  | record entries =>
    obtain ⟨access', henter, h⟩ := bind_eq_ok.mp h
    obtain ⟨parts, hparts, h⟩ := bind_eq_ok.mp h
    obtain rfl := Except.ok.inj h
    rw [depth, ← Access.bound_enter henter]
    have hempty : ({} : MetadataParts).metadata.Fits (access'.bound entries.depth + 1) :=
      Metadata.fits_empty _
    exact Entries.readFields_induction
      (P := fun parts => parts.metadata.Fits (access'.bound entries.depth + 1))
      (fun f hf => MetadataParts.read_fits hf) entries hrange (Nat.le_refl _) hparts hempty
  | number n => cases n <;> cases h
  | string s => cases s <;> cases h
  | _ => cases h

end

end ShapeSchema
