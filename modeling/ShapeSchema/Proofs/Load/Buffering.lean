import ShapeSchema.Proofs.Load.Records

/-!
# Reading from a buffer

What can be read as a JSON value within a limit is the same value without one. From a buffer the
scalars, choices and tables are read as from the text, with two exceptions: there a variant without
content may also be written with an empty object as its content, and a kind at the head of a list
may be given by its number.
-/

namespace ShapeSchema

/-- Well-formed JSON in which no object has a key twice. -/
inductive Source.Regular : Source → Prop
  | null : Regular .null
  | bool (b : Bool) : Regular (.bool b)
  | number (n : Except Fault Number) : Regular (.number n)
  | string (content : Except Fault String) : Regular (.string content)
  | list {vs : List Source} (h : ∀ v ∈ vs, Regular v) : Regular (.list (.ofList vs))
  | record {l : List (String × Source)} (hdistinct : Table.Distinct l)
      (h : ∀ entry ∈ l, Regular entry.2) : Regular (.record (.ofList l))

theorem Source.regular_list_iff {vs : List Source} :
    (Source.list (.ofList vs)).Regular ↔ ∀ v ∈ vs, v.Regular := by
  refine ⟨fun h => ?_, .list⟩
  generalize hv : Source.list (.ofList vs) = v at h
  cases h with
  | list h =>
    obtain rfl := Items.ofList_injective (Source.list.inj hv)
    exact h
  | _ => cases hv

theorem Source.regular_record_iff {l : List (String × Source)} :
    (Source.record (.ofList l)).Regular ↔
      Table.Distinct l ∧ ∀ entry ∈ l, entry.2.Regular := by
  refine ⟨fun h => ?_, fun ⟨hdistinct, h⟩ => .record hdistinct h⟩
  generalize hv : Source.record (.ofList l) = v at h
  cases h with
  | record hdistinct h =>
    obtain rfl := Entries.ofList_injective (Source.record.inj hv)
    exact ⟨hdistinct, h⟩
  | _ => cases hv

theorem Items.skipFault?_ofList {vs : List Source} (h : ∀ v ∈ vs, v.skipFault? = none) :
    (Items.ofList vs).skipFault? = none := by
  induction vs with
  | nil => rfl
  | cons v rest ih =>
    obtain ⟨hv, hrest⟩ := List.forall_mem_cons.mp h
    show (v.skipFault? <|> (Items.ofList rest).skipFault?) = none
    rw [hv, ih hrest]
    rfl

theorem Entries.skipFault?_ofList {l : List (String × Source)}
    (h : ∀ entry ∈ l, entry.2.skipFault? = none) : (Entries.ofList l).skipFault? = none := by
  induction l with
  | nil => rfl
  | cons entry rest ih =>
    obtain ⟨hv, hrest⟩ := List.forall_mem_cons.mp h
    show (entry.2.skipFault? <|> (Entries.ofList rest).skipFault?) = none
    rw [hv, ih hrest]
    rfl

theorem Source.Regular.skipFault? {v : Source} (h : v.Regular) : v.skipFault? = none := by
  induction h with
  | list _ ih => exact Items.skipFault?_ofList ih
  | record _ _ ih => exact Entries.skipFault?_ofList ih
  | _ => rfl

/-! ## JSON values -/

mutual

/-- What is read as a value within a limit is read as that value without one. -/
theorem Source.json_buffered {access : Access} : ∀ (v : Source) {w : Json},
    v.json access = .ok w → v.json .buffered = .ok w
  | .null, w, h => h
  | .bool b, w, h => h
  | .number n, w, h => h
  | .string content, w, h => h
  | .list items, w, h => by
    obtain ⟨access', -, h⟩ := bind_eq_ok.mp h
    obtain ⟨ws, hws, h⟩ := bind_eq_ok.mp h
    rw [Source.json_list]
    exact bind_eq_ok.mpr ⟨.buffered, rfl, bind_eq_ok.mpr ⟨ws, Items.json_buffered items hws, h⟩⟩
  | .record entries, w, h => by
    obtain ⟨access', -, h⟩ := bind_eq_ok.mp h
    obtain ⟨ws, hws, h⟩ := bind_eq_ok.mp h
    rw [Source.json_record]
    exact bind_eq_ok.mpr ⟨.buffered, rfl, bind_eq_ok.mpr ⟨ws, Entries.json_buffered entries hws, h⟩⟩
  | .broken opening reading skipping, w, h => h

/-- The same of the items of a list. -/
theorem Items.json_buffered {access : Access} : ∀ (items : Items) {position : Nat} {ws : List Json},
    items.json access position = .ok ws → items.json .buffered position = .ok ws
  | .done ending, position, ws, h => h
  | .next value rest, position, ws, h => by
    obtain ⟨w, hw, h⟩ := bind_eq_ok.mp h
    obtain ⟨ws', hws, h⟩ := bind_eq_ok.mp h
    have hvalue := Source.json_buffered value (Loaded.under_eq_ok.mp hw)
    rw [Items.json_next]
    exact bind_eq_ok.mpr ⟨w, Loaded.under_eq_ok.mpr hvalue,
      bind_eq_ok.mpr ⟨ws', Items.json_buffered rest hws, h⟩⟩

/-- The same of the entries of an object. -/
theorem Entries.json_buffered {access : Access} : ∀ (entries : Entries)
    {table out : Table String Json}, entries.json access table = .ok out →
      entries.json .buffered table = .ok out
  | .next key value rest, table, out, h => by
    obtain ⟨name, hname, h⟩ := bind_eq_ok.mp h
    obtain ⟨w, hw, h⟩ := bind_eq_ok.mp h
    have hvalue := Source.json_buffered value (Loaded.under_eq_ok.mp hw)
    rw [Entries.json_next]
    exact bind_eq_ok.mpr ⟨name, hname, bind_eq_ok.mpr ⟨w, Loaded.under_eq_ok.mpr hvalue,
      Entries.json_buffered rest h⟩⟩
  | .done ending, table, out, h => h
  | .brokenKey reading skipping, table, out, h => h
  | .notKey, table, out, h => h
  | .noColon key fault, table, out, h => h

end

/-- The value can be read as JSON. -/
def Source.Readable (access : Access) (v : Source) : Prop := ∃ w, v.json access = .ok w

theorem Source.Readable.buffered {access : Access} {v : Source} (h : v.Readable access) :
    v.Readable .buffered :=
  h.imp fun _ hw => v.json_buffered hw

theorem Source.Readable.json_eq {access access' : Access} {v : Source} (h : v.Readable access)
    (h' : v.Readable access') : v.json access = v.json access' := by
  obtain ⟨w, hw⟩ := h
  obtain ⟨w', hw'⟩ := h'
  have hsame := v.json_buffered hw
  rw [v.json_buffered hw'] at hsame
  obtain rfl := Except.ok.inj hsame
  rw [hw, hw']

theorem Items.readable {access : Access} {vs : List Source} {position : Nat} {ws : List Json}
    (h : (Items.ofList vs).json access position = .ok ws) : ∀ v ∈ vs, v.Readable access := by
  induction vs generalizing position ws with
  | nil => simp
  | cons v rest ih =>
    obtain ⟨w, hw, h⟩ := bind_eq_ok.mp h
    obtain ⟨ws', hws, -⟩ := bind_eq_ok.mp h
    exact List.forall_mem_cons.mpr ⟨⟨w, Loaded.under_eq_ok.mp hw⟩, ih hws⟩

theorem Entries.readable {access : Access} {l : List (String × Source)}
    {table out : Table String Json} (h : (Entries.ofList l).json access table = .ok out) :
    ∀ entry ∈ l, entry.2.Readable access := by
  induction l generalizing table with
  | nil => simp
  | cons entry rest ih =>
    obtain ⟨name, -, h⟩ := bind_eq_ok.mp h
    obtain ⟨w, hw, h⟩ := bind_eq_ok.mp h
    exact List.forall_mem_cons.mpr ⟨⟨w, Loaded.under_eq_ok.mp hw⟩, ih h⟩

/-- A list that can be read can be entered, and then its items can be read. -/
theorem Source.Readable.items {access : Access} {vs : List Source}
    (h : (Source.list (.ofList vs)).Readable access) :
    ∃ access', access.enter = .ok access' ∧ ∀ v ∈ vs, v.Readable access' := by
  obtain ⟨w, hw⟩ := h
  obtain ⟨access', henter, hw⟩ := bind_eq_ok.mp hw
  obtain ⟨ws, hws, -⟩ := bind_eq_ok.mp hw
  exact ⟨access', henter, Items.readable hws⟩

theorem Source.Readable.entries {access : Access} {l : List (String × Source)}
    (h : (Source.record (.ofList l)).Readable access) :
    ∃ access', access.enter = .ok access' ∧ ∀ entry ∈ l, entry.2.Readable access' := by
  obtain ⟨w, hw⟩ := h
  obtain ⟨access', henter, hw⟩ := bind_eq_ok.mp hw
  obtain ⟨out, hout, -⟩ := bind_eq_ok.mp hw
  exact ⟨access', henter, Entries.readable hout⟩

/-! ## Choices -/

/-- The names of the variants without content. -/
def Variant.bareNames {α : Type} (variants : List (String × Variant α)) : List String :=
  variants.filterMap fun
    | (name, .unit _) => some name
    | _ => none

/-- One of these names with an empty object as its content. -/
def Source.HasEmptyContent (names : List String) (v : Source) : Prop :=
  ∃ name ∈ names, v = .record (.ofList [(name, .record (.ofList []))])

section

variable {α : Type} {variants : List (String × Variant α)} {access access' : Access}

theorem Source.Regular.readUnit_agree {v : Source} (h : v.Regular)
    (hempty : v ≠ .record (.ofList [])) (access access' : Access) :
    (v.readUnit access).toOption = (v.readUnit access').toOption := by
  cases h with
  | null => rfl
  | @record l _ _ =>
    cases l with
    | nil => exact absurd rfl hempty
    | cons entry rest => cases access <;> cases access' <;> rfl
  | _ => cases access <;> cases access' <;> rfl

/-- An object is a choice if it has one entry. -/
theorem Source.readChoice_record {l : List (String × Source)}
    (henter : access.enter = .ok access') :
    ((Source.record (.ofList l)).readChoice access variants).toOption =
      match l with
      | [(name, content)] => (Variant.named variants name).toOption.bind fun variant =>
          (variant.withContent access' content).toOption
      | _ => none := by
  have hchoice : ((Source.record (.ofList l)).readChoice access variants).toOption =
      match access with
      | .streamed _ => ((Entries.ofList l).readChoice access' variants).toOption
      | .buffered => if (Entries.ofList l).isSingle then
          ((Entries.ofList l).readChoice access' variants).toOption else none := by
    cases access with
    | streamed room =>
      show ((Access.streamed room).enter >>= fun _ => _).toOption = _
      rw [henter]
      rfl
    | buffered =>
      obtain rfl := Except.ok.inj henter
      show (if (Entries.ofList l).isSingle then _ else _ : Loaded α).toOption = _
      split <;> rfl
  rw [hchoice]
  match l with
  | [] => cases access <;> rfl
  | [(name, content)] =>
    have hsingle : ((Entries.ofList [(name, content)]).readChoice access' variants).toOption =
        (Variant.named variants name).toOption.bind fun variant =>
          (variant.withContent access' content).toOption := by
      show (Variant.named variants name >>= fun variant =>
        (variant.withContent access' content).under (.key name) >>= fun value =>
          .ok value).toOption = _
      rw [toOption_bind]
      refine congrArg _ (funext fun variant => ?_)
      cases variant.withContent access' content <;> rfl
    cases access <;> exact hsingle
  | (name, content) :: second :: rest =>
    have hmore : ((Entries.ofList ((name, content) :: second :: rest)).readChoice
        access' variants).toOption = none := by
      show (Variant.named variants name >>= fun variant =>
        (variant.withContent access' content).under (.key name) >>= fun value =>
          Loaded.fault .expectedValue >>= fun _ => .ok value).toOption = _
      cases Variant.named variants name with
      | error e => rfl
      | ok variant =>
        rw [ok_bind]
        cases variant.withContent access' content <;> rfl
    cases access with
    | streamed room => exact hmore
    | buffered => rfl

/-- **Choices are read alike** from the text and from a buffer, if no variant without content has an
empty object as its content. -/
theorem Source.Regular.readChoice_agree {v : Source} (h : v.Regular)
    (hread : v.Readable access) (hread' : v.Readable access')
    (hempty : ¬ v.HasEmptyContent (Variant.bareNames variants))
    (hfree : ∀ name read, (name, Variant.holding read) ∈ variants → ∀ access access' content,
      read access content = read access' content) :
    (v.readChoice access variants).toOption = (v.readChoice access' variants).toOption := by
  cases h with
  | @record l _ hl =>
    obtain ⟨inner, henter, -⟩ := hread.entries
    obtain ⟨inner', henter', -⟩ := hread'.entries
    rw [readChoice_record henter, readChoice_record henter']
    match l with
    | [] => rfl
    | [(name, content)] =>
      refine Option.bind_congr fun variant hvariant => ?_
      have hmem := Variant.named_eq_ok (toOption_eq_some.mp hvariant)
      cases variant with
      | unit a =>
        -- Only here do the two ways differ, and only about an empty object.
        have hbare : name ∈ Variant.bareNames variants :=
          List.mem_filterMap.mpr ⟨_, hmem, rfl⟩
        have hcontent : content ≠ .record (.ofList []) := by
          rintro rfl
          exact hempty ⟨name, hbare, rfl⟩
        have hunit := (hl (name, content) (by simp)).readUnit_agree hcontent inner inner'
        show (content.readUnit inner >>= fun _ => .ok a).toOption =
          (content.readUnit inner' >>= fun _ => .ok a).toOption
        rw [toOption_bind, toOption_bind]
        exact congrArg (Option.bind · _) hunit
      | holding read => exact congrArg Except.toOption (hfree name read hmem inner inner' content)
    | _ :: _ :: _ => rfl
  | _ => cases access <;> cases access' <;> rfl

end

/-! ## Kinds, policies, literals -/

section

variable {v : Source} {access access' : Access}

theorem Source.Regular.readKind_agree (h : v.Regular) (hread : v.Readable access)
    (hread' : v.Readable access') (hempty : ¬ v.HasEmptyContent (Variant.bareNames Kind.variants)) :
    (v.readKind access).toOption = (v.readKind access').toOption := by
  refine h.readChoice_agree hread hread' hempty fun name read hmem => ?_
  simp [Kind.variants] at hmem

theorem Source.Regular.readUnknownKeys_agree (h : v.Regular) (hread : v.Readable access)
    (hread' : v.Readable access')
    (hempty : ¬ v.HasEmptyContent (Variant.bareNames UnknownKeys.variants)) :
    (v.readUnknownKeys access).toOption = (v.readUnknownKeys access').toOption := by
  refine h.readChoice_agree hread hread' hempty fun name read hmem => ?_
  simp [UnknownKeys.variants] at hmem

theorem Source.Regular.readLiteral_agree (h : v.Regular) (hread : v.Readable access)
    (hread' : v.Readable access')
    (hempty : ¬ v.HasEmptyContent (Variant.bareNames Literal.variants)) :
    (v.readLiteral access).toOption = (v.readLiteral access').toOption := by
  refine h.readChoice_agree hread hread' hempty fun name read hmem => ?_
  simp only [Literal.variants, List.mem_cons, Prod.mk.injEq, Variant.holding.injEq, reduceCtorEq,
    and_false, false_or, List.not_mem_nil, or_false] at hmem
  rcases hmem with ⟨-, rfl⟩ | ⟨-, rfl⟩ | ⟨-, rfl⟩ | ⟨-, rfl⟩ <;> exact fun _ _ _ => rfl

theorem Source.Regular.readDeprecation?_agree (h : v.Regular) (hread : v.Readable access)
    (hread' : v.Readable access')
    (hempty : ¬ v.HasEmptyContent (Variant.bareNames Deprecation.variants)) :
    (v.readDeprecation? access).toOption = (v.readDeprecation? access').toOption := by
  have hchoice : (v.readDeprecation access).toOption = (v.readDeprecation access').toOption := by
    refine h.readChoice_agree hread hread' hempty fun name read hmem => ?_
    simp only [Deprecation.variants, List.mem_cons, Prod.mk.injEq, Variant.holding.injEq,
      reduceCtorEq, and_false, false_or, List.not_mem_nil, or_false] at hmem
    obtain ⟨-, rfl⟩ := hmem
    exact fun _ _ _ => rfl
  have hsome : ∀ access, v ≠ .null →
      v.readDeprecation? access = (v.readDeprecation access >>= fun mark => .ok (some mark)) := by
    intro access hnull
    cases h <;> first | rfl | exact absurd rfl hnull
  by_cases hnull : v = .null
  · rw [hnull]
    rfl
  · rw [hsome access hnull, hsome access' hnull, toOption_bind, toOption_bind, hchoice]

theorem Source.Readable.readDefault?_agree (hread : v.Readable access)
    (hread' : v.Readable access') : v.readDefault? access = v.readDefault? access' := by
  have hjson := hread.json_eq hread'
  cases v with
  | null => rfl
  | _ =>
    show (Source.json _ _ >>= _) = (Source.json _ _ >>= _)
    rw [hjson]

theorem Entries.annotations_agree {l : List (String × Source)}
    (hl : ∀ entry ∈ l, entry.2.json access = entry.2.json access') (table : Table MetadataId Json) :
    (Entries.ofList l).annotations access table = (Entries.ofList l).annotations access' table := by
  induction l generalizing table with
  | nil => rfl
  | cons entry rest ih =>
    obtain ⟨key, v⟩ := entry
    obtain ⟨hv, hrest⟩ := List.forall_mem_cons.mp hl
    rw [Entries.ofList, Entries.annotations_next, Entries.annotations_next, hv]
    simp only [ih hrest]

theorem Source.Regular.readAnnotations_agree (h : v.Regular) (hread : v.Readable access)
    (hread' : v.Readable access') : v.readAnnotations access = v.readAnnotations access' := by
  cases h with
  | @record l _ _ =>
    obtain ⟨inner, henter, hl⟩ := hread.entries
    obtain ⟨inner', henter', hl'⟩ := hread'.entries
    show (access.enter >>= fun a => (Entries.ofList l).annotations a []) =
      (access'.enter >>= fun a => (Entries.ofList l).annotations a [])
    rw [henter, henter', ok_bind, ok_bind]
    exact Entries.annotations_agree
      (fun entry hentry => (hl entry hentry).json_eq (hl' entry hentry)) []
  | _ => rfl

end

end ShapeSchema
