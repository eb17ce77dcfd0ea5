import ShapeSchema.Proofs.Load.Buffering

/-!
# Layouts of a document

Each value in a document of a struct has a role: it is a struct, a shape, the table of the fields,
and so on. A document is laid out anew by putting the entries of structs, shapes, objects and
metadata in another order and adding entries there under keys that mean nothing.
-/

namespace ShapeSchema

/-- What a value in the document of a struct is. -/
inductive Role where
  | struct
  | shape
  | metadata
  /-- Several structs in a list. -/
  | structs
  /-- The content of an object. -/
  | object
  /-- The table of the fields of an object. -/
  | fields
  /-- Anything else. Of the variants that may be named here, these have no content. -/
  | value (names : List String)

/-- What the content of a shape of this kind is. -/
def Kind.contentRole (kind : Kind) : Role :=
  match kind.content with
  | .nothing _ => .value []
  | .literal => .value (Variant.bareNames Literal.variants)
  | .struct _ => .struct
  | .structs _ => .structs
  | .fields => .object

namespace Role

/-- The keys that mean something in an object of this role, if the order of its entries does not. -/
def keys? : Role → Option (List String)
  | struct => some ["shape", "metadata"]
  | shape => some ["kind", "of"]
  | metadata => some ["deprecation", "default", "annotations"]
  | object => some ["fields", "unknownKeys"]
  | _ => none

/-- The role of the content that is due after what names the kind. -/
def afterKind (kind : Loaded Kind) : Role :=
  match kind with
  | .ok kind => kind.contentRole
  | .error _ => value []

/-- The role of what stands under a key in an object of this role with these entries. -/
def entry (role : Role) (l : List (String × Source)) (key : String) : Role :=
  match role with
  | struct =>
    match key with
    | "shape" => shape
    | "metadata" => metadata
    | _ => value []
  | shape =>
    match key with
    | "kind" => value (Variant.bareNames Kind.variants)
    | "of" =>
      match Table.find? "kind" l with
      | some v => afterKind (v.readKind .buffered)
      | none => value []
    | _ => value []
  | metadata =>
    match key with
    | "deprecation" => value (Variant.bareNames Deprecation.variants)
    | _ => value []
  | object =>
    match key with
    | "fields" => fields
    | "unknownKeys" => value (Variant.bareNames UnknownKeys.variants)
    | _ => value []
  | fields => struct
  | structs => value []
  | value _ => value []

/-- The role of what stands at a position in a list of this role with these items. -/
def item (role : Role) (vs : List Source) (position : Nat) : Role :=
  match role with
  | struct =>
    match position with
    | 0 => shape
    | 1 => metadata
    | _ => value []
  | shape =>
    match position with
    | 1 =>
      match vs with
      | first :: _ => afterKind (first.readKindItem .buffered)
      | [] => value []
    | _ => value []
  | metadata =>
    match position with
    | 0 => value (Variant.bareNames Deprecation.variants)
    | _ => value []
  | structs => struct
  | object => value []
  | fields => value []
  | value _ => value []

/-- The value is written in a way that only a buffer allows: a variant without content has an empty
object as its content, or a list starts with a number in place of a kind. -/
def Exotic : Role → Source → Prop
  | value names, v => v.HasEmptyContent names
  | shape, v => ∃ n rest, v = .list (.next (.number n) rest)
  | _, _ => False

end Role

/-- The second document is the first one laid out anew: where the order of the entries does not
matter, they stand in any order, with others among them under keys that mean nothing. -/
inductive Relaid : Role → Source → Source → Prop
  | refl (role : Role) (v : Source) : Relaid role v v
  | record {role : Role} {names : List String} {l mid extra l' : List (String × Source)}
      (hrole : role.keys? = some names) (hkeys : Table.keys mid = Table.keys l)
      (hinner : ∀ p ∈ l.zip mid, Relaid (role.entry l p.1.1) p.1.2 p.2.2)
      (hextra : ∀ entry ∈ extra, entry.1 ∉ names ∧ entry.2.skipFault? = none)
      (hperm : (mid ++ extra).Perm l') : Relaid role (.record (.ofList l)) (.record (.ofList l'))
  | table {l l' : List (String × Source)} (hkeys : Table.keys l' = Table.keys l)
      (hinner : ∀ p ∈ l.zip l', Relaid .struct p.1.2 p.2.2) :
      Relaid .fields (.record (.ofList l)) (.record (.ofList l'))
  | list {role : Role} {vs vs' : List Source} (hrole : ∀ names, role ≠ .value names)
      (hlength : vs'.length = vs.length)
      (hinner : ∀ i v v', vs[i]? = some v → vs'[i]? = some v' → Relaid (role.item vs i) v v') :
      Relaid role (.list (.ofList vs)) (.list (.ofList vs'))

/-- What stands under this key in an object, or at this position in a list, with its role there. -/
inductive Part (role : Role) (key : String) (position : Nat) : Source → Role → Source → Prop
  | entry {l : List (String × Source)} {v : Source} (hmem : (key, v) ∈ l) :
      Part role key position (.record (.ofList l)) (role.entry l key) v
  | item {vs : List Source} {v : Source} (hmem : vs[position]? = some v) :
      Part role key position (.list (.ofList vs)) (role.item vs position) v

theorem Part.record_iff {role r : Role} {key : String} {position : Nat}
    {l : List (String × Source)} {w : Source} :
    Part role key position (.record (.ofList l)) r w ↔ (key, w) ∈ l ∧ r = role.entry l key := by
  constructor
  · intro h
    generalize hv : Source.record (.ofList l) = v at h
    cases h with
    | entry hmem =>
      obtain rfl := Entries.ofList_injective (Source.record.inj hv)
      exact ⟨hmem, rfl⟩
    | item => cases hv
  · rintro ⟨hmem, rfl⟩
    exact .entry hmem

theorem Part.list_iff {role r : Role} {key : String} {position : Nat} {vs : List Source}
    {w : Source} : Part role key position (.list (.ofList vs)) r w ↔
      vs[position]? = some w ∧ r = role.item vs position := by
  constructor
  · intro h
    generalize hv : Source.list (.ofList vs) = v at h
    cases h with
    | entry => cases hv
    | item hmem =>
      obtain rfl := Items.ofList_injective (Source.list.inj hv)
      exact ⟨hmem, rfl⟩
  · rintro ⟨hmem, rfl⟩
    exact .item hmem

/-- The value stands in another one, the role of which is known, at any depth, and has this role
there. -/
inductive Inside (r : Role) (w : Source) : Role → Source → Prop
  | refl : Inside r w r w
  | part {role inner : Role} {key : String} {position : Nat} {v v' : Source}
      (hpart : Part role key position v inner v') (hinside : Inside r w inner v') :
      Inside r w role v

/-- Nothing in the value is written in a way that only a buffer allows. -/
def Standard (role : Role) (v : Source) : Prop := ∀ r w, Inside r w role v → ¬ r.Exotic w

namespace Standard

variable {role inner : Role} {v w : Source}

theorem here (h : Standard role v) : ¬ role.Exotic v := h role v .refl

theorem part (h : Standard role v) {key : String} {position : Nat}
    (hpart : Part role key position v inner w) : Standard inner w :=
  fun r u hu => h r u (.part hpart hu)

theorem first_ne_number {vs : List Source} (h : Standard .shape (.list (.ofList vs)))
    (hfirst : vs[0]? = some v) (n : Except Fault Number) : v ≠ .number n := by
  rintro rfl
  match vs, hfirst with
  | _ :: rest, rfl => exact h.here ⟨n, .ofList rest, rfl⟩

/-- The value itself and each of its parts are looked at. -/
theorem of_parts (hv : ¬ role.Exotic v) (hparts : ∀ key position inner w,
    Part role key position v inner w → Standard inner w) : Standard role v := by
  intro r u hu
  cases hu with
  | refl => exact hv
  | part hpart hinside => exact hparts _ _ _ _ hpart r u hinside

theorem string (names : List String) (content : Except Fault String) :
    Standard (.value names) (.string content) := by
  refine .of_parts (fun h => ?_) fun _ _ _ _ hpart => nomatch hpart
  obtain ⟨_, _, h⟩ := h
  cases h

/-- Nothing is demanded of a value in which no variants are named. -/
theorem nothing (v : Source) : Standard (.value []) v := by
  have hrole : ∀ {r role u v}, Inside r u role v → role = .value [] → r = .value [] := by
    intro r role u v hu hvalue
    induction hu with
    | refl => exact hvalue
    | part hpart _ ih =>
      subst hvalue
      cases hpart with
      | entry => exact ih rfl
      | item => exact ih rfl
  intro r u hu
  rw [hrole hu rfl]
  rintro ⟨name, hname, -⟩
  cases hname

end Standard

/-- When the first value is read in its role and in this way, the second one is content that comes
before its kind; it has this role, and in this way it is put in a buffer. -/
inductive Buffers : Role → Access → Source → Role → Access → Source → Prop
  | here {access inner : Access} {l : List (String × Source)} {v : Source}
      (henter : access.enter = .ok inner) (hearly : earlyContent? l = some v) :
      Buffers .shape access (.record (.ofList l)) (Role.shape.entry l "of") inner v
  | part {role inner r : Role} {access access' a : Access} {key : String} {position : Nat}
      {v part w : Source} (henter : access.enter = .ok access')
      (hpart : Part role key position v inner part) (hbuffers : Buffers inner access' part r a w) :
      Buffers role access v r a w

/-- Each content that comes before its kind may as well come behind it: it can be read as a JSON
value, and nothing in it is written in a way that only a buffer allows. -/
def Movable (role : Role) (access : Access) (v : Source) : Prop :=
  ∀ r a w, Buffers role access v r a w → w.Readable a ∧ Standard r w

theorem Movable.part {role inner : Role} {access access' : Access} {v w : Source}
    (h : Movable role access v) (henter : access.enter = .ok access') {key : String}
    {position : Nat} (hpart : Part role key position v inner w) : Movable inner access' w :=
  fun r a u hu => h r a u (.part henter hpart hu)

/-! ## What a layout keeps -/

theorem Relaid.eq {names : List String} {v v' : Source} (h : Relaid (.value names) v v') :
    v' = v := by
  cases h with
  | refl => rfl
  | record hrole => cases hrole
  | list hrole => exact absurd rfl (hrole names)

/-- Whatever else is only kept, a scalar is. -/
theorem Relaid.eq_of_scalar {role : Role} {v v' : Source} (h : Relaid role v v')
    (hlist : ∀ items, v ≠ .list items) (hrecord : ∀ entries, v ≠ .record entries) : v' = v := by
  cases h with
  | refl => rfl
  | record => exact absurd rfl (hrecord _)
  | table => exact absurd rfl (hrecord _)
  | list => exact absurd rfl (hlist _)

/-- Entries without repeated keys and with well-formed values. -/
theorem Orderly.of_distinct {names : List String} {l : List (String × Source)}
    (hl : Table.Distinct l) (hskip : ∀ entry ∈ l, entry.2.skipFault? = none) : Orderly names l :=
  ⟨hl.filter _, fun entry hentry _ => hskip entry hentry⟩

theorem Role.entry_of_not_mem {role : Role} {names : List String} (hrole : role.keys? = some names)
    {key : String} (hkey : key ∉ names) (l : List (String × Source)) :
    role.entry l key = .value [] := by
  cases role with
  | structs => cases hrole
  | fields => cases hrole
  | value names => cases hrole
  | _ =>
    obtain rfl := Option.some.inj hrole
    simp only [List.mem_cons, List.not_mem_nil, or_false, not_or] at hkey
    simp [entry, hkey]

/-- Under the keys that mean something, there are layouts of what was there. -/
theorem Relaid.entries {role : Role} {names : List String} (hrole : role.keys? = some names)
    {l : List (String × Source)} {v' : Source} (h : Relaid role (.record (.ofList l)) v')
    (hdistinct : Table.Distinct l) (hskip : ∀ entry ∈ l, entry.2.skipFault? = none) :
    ∃ l', v' = .record (.ofList l') ∧ Orderly names l' ∧
      ∀ key ∈ names, Option.Rel (Relaid (role.entry l key))
        (Table.find? key l) (Table.find? key l') := by
  generalize hv : Source.record (.ofList l) = v at h
  cases h with
  | refl =>
    subst hv
    refine ⟨l, rfl, .of_distinct hdistinct hskip, fun key _ => ?_⟩
    cases Table.find? key l with
    | none => exact .none
    | some v => exact .some (.refl _ v)
  | @record _ names' l₁ mid extra l' hrole' hkeys hinner hextra hperm =>
    obtain rfl := Entries.ofList_injective (Source.record.inj hv)
    obtain rfl : names = names' := by
      rw [hrole'] at hrole
      exact (Option.some.inj hrole).symm
    have hpairs := Table.forall₂_of_keys (R := fun key => Relaid (role.entry l key)) hkeys hinner
    have hmid : Table.Distinct mid := by
      rw [Table.Distinct, hkeys]
      exact hdistinct
    -- Apart from what was added, the known entries are those of `mid` in another order.
    have hknown : (mid.filter fun entry => decide (entry.1 ∈ names)).Perm
        (l'.filter fun entry => decide (entry.1 ∈ names)) := by
      have hnone : extra.filter (fun entry => decide (entry.1 ∈ names)) = [] :=
        List.filter_eq_nil_iff.mpr fun entry hentry => by simpa using (hextra entry hentry).1
      have hfilter := hperm.filter fun entry => decide (entry.1 ∈ names)
      rwa [List.filter_append, hnone, List.append_nil] at hfilter
    refine ⟨l', rfl, ⟨?_, ?_⟩, fun key hkey => ?_⟩
    · exact (hknown.map Prod.fst).nodup_iff.mp (hmid.filter _)
    · intro entry hentry hkey
      rcases List.mem_append.mp (hperm.mem_iff.mpr hentry) with hentry | hentry
      · -- Under a key that means nothing, the value is as it was.
        obtain ⟨before, hbefore, hname, hrelaid⟩ := exists_left_of_mem hpairs hentry
        rw [Role.entry_of_not_mem hrole (hname ▸ hkey)] at hrelaid
        rw [hrelaid.eq]
        exact hskip before hbefore
      · exact (hextra entry hentry).2
    · have hfind : ∀ t : List (String × Source), Table.find? key t =
          Table.find? key (t.filter fun entry => decide (entry.1 ∈ names)) := by
        intro t
        rw [Table.find?_filter (fun key => decide (key ∈ names)), if_pos (by simpa using hkey)]
      rw [hfind l', ← Table.find?_perm hknown (hmid.filter _) key, ← hfind mid]
      have hagree : Table.Agree (fun key => Relaid (role.entry l key)) l mid := .of_forall₂ hpairs
      exact hagree key
  | table => cases hrole
  | list => cases hv

/-- The parts of an object have the same roles in all layouts. -/
theorem Relaid.entry_eq {role : Role} {names : List String} (hrole : role.keys? = some names)
    {l l' : List (String × Source)} (hparts : ∀ key ∈ names, Option.Rel
      (Relaid (role.entry l key)) (Table.find? key l) (Table.find? key l')) (key : String) :
    role.entry l' key = role.entry l key := by
  cases role with
  | shape =>
    obtain rfl := Option.some.inj hrole
    have hkind : Table.find? "kind" l' = Table.find? "kind" l := by
      rcases either_of_rel (hparts "kind" (by simp)) with ⟨hv, hv'⟩ | ⟨v, v', hv, hv', hrelaid⟩
      · rw [hv, hv']
      · rw [hv, hv', hrelaid.eq]
    unfold Role.entry
    rw [hkind]
  | _ => rfl

/-- The items of a list are laid out one by one. -/
theorem Relaid.items {role : Role} {vs : List Source} {v' : Source}
    (h : Relaid role (.list (.ofList vs)) v') :
    ∃ vs', v' = .list (.ofList vs') ∧ vs'.length = vs.length ∧
      ∀ i : Nat, Option.Rel (Relaid (role.item vs i)) vs[i]? vs'[i]? := by
  generalize hv : Source.list (.ofList vs) = v at h
  cases h with
  | refl =>
    subst hv
    refine ⟨vs, rfl, rfl, fun i => ?_⟩
    cases vs[i]? with
    | none => exact .none
    | some v => exact .some (.refl _ v)
  | record => cases hv
  | table => cases hv
  | list _ hlength hinner =>
    obtain rfl := Items.ofList_injective (Source.list.inj hv)
    exact ⟨_, rfl, hlength, fun i => rel_getElem? hlength (hinner i)⟩

/-- The items of a list have the same roles in all layouts. -/
theorem Relaid.item_eq {role : Role} {vs vs' : List Source}
    (hparts : ∀ i : Nat, Option.Rel (Relaid (role.item vs i)) vs[i]? vs'[i]?) (i : Nat) :
    role.item vs' i = role.item vs i := by
  cases role with
  | shape =>
    have hfirst := hparts 0
    match vs, vs', hfirst with
    | [], [], _ => rfl
    | v :: _, v' :: _, .some hrelaid =>
      obtain rfl : v' = v := hrelaid.eq
      rfl
  | _ => rfl

/-- The fields of an object keep their order. -/
theorem Relaid.fields {l : List (String × Source)} {v' : Source}
    (h : Relaid .fields (.record (.ofList l)) v') :
    ∃ l', v' = .record (.ofList l') ∧
      List.Forall₂ (fun entry entry' => entry'.1 = entry.1 ∧ Relaid .struct entry.2 entry'.2)
        l l' := by
  generalize hv : Source.record (.ofList l) = v at h
  cases h with
  | refl =>
    subst hv
    exact ⟨l, rfl, List.forall₂_same.mpr fun entry _ => ⟨rfl, .refl _ _⟩⟩
  | record hrole => cases hrole
  | table hkeys hinner =>
    obtain rfl := Entries.ofList_injective (Source.record.inj hv)
    exact ⟨_, rfl, Table.forall₂_of_keys (R := fun _ => Relaid .struct) hkeys hinner⟩
  | list => cases hv

theorem Relaid.record_of_record {role : Role} {entries : Entries} {v' : Source}
    (h : Relaid role (.record entries) v') : ∃ entries', v' = .record entries' := by
  cases h with
  | refl => exact ⟨_, rfl⟩
  | record => exact ⟨_, rfl⟩
  | table => exact ⟨_, rfl⟩

/-- Metadata in a list stays as it is. -/
theorem Relaid.metadata_list {vs vs' : List Source}
    (h : Relaid .metadata (.list (.ofList vs)) (.list (.ofList vs'))) : vs' = vs := by
  obtain ⟨ws, hws, -, hparts⟩ := h.items
  obtain rfl := Items.ofList_injective (Source.list.inj hws)
  have hitem : ∀ i : Nat, ∃ names, Role.metadata.item vs i = .value names := by
    intro i
    match i with
    | 0 => exact ⟨_, rfl⟩
    | _ + 1 => exact ⟨_, rfl⟩
  refine List.ext_getElem? fun i => ?_
  obtain ⟨names, hnames⟩ := hitem i
  have hpart := hparts i
  rw [hnames] at hpart
  rcases either_of_rel hpart with ⟨hw, hw'⟩ | ⟨w, w', hw, hw', hrelaid⟩
  · rw [hw, hw']
  · rw [hw, hw', hrelaid.eq]

end ShapeSchema
