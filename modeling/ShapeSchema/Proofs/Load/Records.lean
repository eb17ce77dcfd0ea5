import Mathlib.Data.List.Pairwise
import ShapeSchema.Load.Struct
import ShapeSchema.Proofs.Load.Struct
import ShapeSchema.Proofs.Table.Agreement

/-!
# Objects entry by entry

What the readers of an object make of its entries depends only on what stands under the keys that
they know. Up to the error, the fields of a record are read as if they stood in the order in which
they are declared, and the kind and the content of a shape as if the kind came first; but content
that comes before its kind is read as a JSON value first, and then from a buffer.
-/

namespace ShapeSchema

theorem Loaded.toOption_under {α : Type} (step : Step) (r : Loaded α) :
    (r.under step).toOption = r.toOption :=
  toOption_mapError r _

theorem Loaded.toOption_withoutPath {α : Type} (r : Loaded α) :
    r.withoutPath.toOption = r.toOption :=
  toOption_mapError r _

/-- The items of a list that ends in its bracket. -/
def Items.ofList : List Source → Items
  | [] => .done .closed
  | v :: rest => .next v (ofList rest)

/-- The entries of an object that ends in its brace. -/
def Entries.ofList : List (String × Source) → Entries
  | [] => .done .closed
  | (key, v) :: rest => .next (.ok key) v (ofList rest)

theorem Items.ofList_injective : Function.Injective Items.ofList := by
  intro vs vs' h
  induction vs generalizing vs' with
  | nil => cases vs' <;> simp_all [ofList]
  | cons v rest ih =>
    cases vs' with
    | nil => cases h
    | cons v' rest' =>
      obtain ⟨rfl, hrest⟩ := Items.next.inj h
      rw [ih hrest]

theorem Entries.ofList_injective : Function.Injective Entries.ofList := by
  intro l l' h
  induction l generalizing l' with
  | nil => cases l' <;> simp_all [ofList]
  | cons entry rest ih =>
    cases l' with
    | nil => cases h
    | cons entry' rest' =>
      obtain ⟨hkey, hvalue, hrest⟩ := Entries.next.inj h
      have hentry : entry = entry' := Prod.ext (Except.ok.inj hkey) hvalue
      rw [hentry, ih hrest]

/-- Each of these keys stands at most once, and what stands under other keys is well-formed. -/
structure Orderly (names : List String) (l : List (String × Source)) : Prop where
  once : Table.Distinct (l.filter fun entry => decide (entry.1 ∈ names))
  skippable : ∀ entry ∈ l, entry.1 ∉ names → entry.2.skipFault? = none

namespace Orderly

variable {names : List String} {key : String} {v : Source} {rest : List (String × Source)}

theorem tail (h : Orderly names ((key, v) :: rest)) : Orderly names rest := by
  refine ⟨?_, fun entry hentry => h.skippable entry (List.mem_cons_of_mem _ hentry)⟩
  have hsub : (rest.filter fun entry => decide (entry.1 ∈ names)).Sublist
      (((key, v) :: rest).filter fun entry => decide (entry.1 ∈ names)) :=
    (List.sublist_cons_self _ _).filter _
  exact List.Nodup.sublist (hsub.map _) h.once

theorem fresh (h : Orderly names ((key, v) :: rest)) (hkey : key ∈ names) :
    key ∉ Table.keys rest := by
  have honce := h.once
  rw [List.filter_cons_of_pos (by simpa using hkey), Table.Distinct, Table.keys_cons,
    List.nodup_cons] at honce
  intro hmem
  obtain ⟨entry, hentry, rfl⟩ := List.mem_map.mp hmem
  have hknown : entry.1 ∈ Table.keys (rest.filter fun entry => decide (entry.1 ∈ names)) :=
    Table.mem_keys_of_mem (List.mem_filter.mpr ⟨hentry, by simpa using hkey⟩)
  exact honce.1 hknown

theorem find?_rest (h : Orderly names ((key, v) :: rest)) (hkey : key ∈ names) :
    Table.find? key rest = none :=
  Table.find?_eq_none_iff.mpr (h.fresh hkey)

theorem skip (h : Orderly names ((key, v) :: rest)) (hkey : key ∉ names) : v.skip = .ok () := by
  rw [Source.skip, h.skippable (key, v) (by simp) hkey]

end Orderly

/-! ## Records with known fields -/

section

variable {σ : Type} {access : Access}

theorem Entries.readFields_cons (access : Access) (fields : List (Field σ)) (refuse : Bool)
    (key : String) (v : Source) (rest : List (String × Source)) (s : σ) :
    (Entries.ofList ((key, v) :: rest)).readFields access fields refuse s =
      (Field.look fields refuse s key >>= fun field? => match field? with
        | some f => (f.read access v s).under (.key key) >>= fun s =>
            (Entries.ofList rest).readFields access fields refuse s
        | none => v.skip.under (.key key) >>= fun _ =>
            (Entries.ofList rest).readFields access fields refuse s) := rfl

/-- Two fields that are read into different places: each is noted as read by itself alone, and it
does not matter which is read first. -/
structure Field.Apart (f g : Field σ) : Prop where
  name : f.name ≠ g.name
  left : ∀ access v s s', f.read access v s = .ok s' → g.isSet s' = g.isSet s
  right : ∀ access v s s', g.read access v s = .ok s' → f.isSet s' = f.isSet s
  swap : ∀ access v w s, (f.read access v s >>= g.read access w).toOption =
    (g.read access w s >>= f.read access v).toOption

theorem Field.Apart.symm {f g : Field σ} (h : f.Apart g) : g.Apart f :=
  ⟨h.name.symm, h.right, h.left, fun access v w s => (h.swap access w v s).symm⟩

/-- Fields with different names are apart. -/
def Field.Independent (fields : List (Field σ)) : Prop := fields.Pairwise Field.Apart

theorem Field.Independent.apart {fields : List (Field σ)} (h : Field.Independent fields)
    {f g : Field σ} (hf : f ∈ fields) (hg : g ∈ fields) (hname : f.name ≠ g.name) : f.Apart g := by
  have hsymm : Std.Symm (Field.Apart (σ := σ)) := ⟨fun _ _ h => h.symm⟩
  exact List.Pairwise.forall h hf hg fun heq => hname (heq ▸ rfl)

/-- A field that is read by itself and then put in its place. -/
def Field.slot {α : Type} (name : String) (isSet : σ → Bool) (get : Access → Source → Loaded α)
    (put : α → σ → σ) : Field σ :=
  ⟨name, isSet, fun access v s => do .ok (put (← get access v) s)⟩

theorem Field.apart_slot {α β : Type} {name name' : String} {isSet isSet' : σ → Bool}
    {get : Access → Source → Loaded α} {get' : Access → Source → Loaded β} {put : α → σ → σ}
    {put' : β → σ → σ} (hname : name ≠ name') (hleft : ∀ a s, isSet' (put a s) = isSet' s)
    (hright : ∀ b s, isSet (put' b s) = isSet s)
    (hswap : ∀ a b s, put' b (put a s) = put a (put' b s)) :
    (Field.slot name isSet get put).Apart (Field.slot name' isSet' get' put') where
  name := hname
  left := by
    intro access v s s' h
    obtain ⟨a, -, h⟩ := bind_eq_ok.mp h
    obtain rfl := Except.ok.inj h
    exact hleft a s
  right := by
    intro access v s s' h
    obtain ⟨b, -, h⟩ := bind_eq_ok.mp h
    obtain rfl := Except.ok.inj h
    exact hright b s
  swap := by
    intro access v w s
    show ((get access v >>= fun a => .ok (put a s)) >>= fun s =>
      get' access w >>= fun b => Except.ok (put' b s)).toOption =
      ((get' access w >>= fun b => .ok (put' b s)) >>= fun s =>
        get access v >>= fun a => Except.ok (put a s)).toOption
    cases get access v with
    | error e => cases get' access w <;> rfl
    | ok a =>
      cases get' access w with
      | error e => rfl
      | ok b => exact congrArg some (hswap a b s)

/-- The fields in the order in which they are declared, each read if it is there. -/
def Field.readAll (access : Access) (l : List (String × Source)) : List (Field σ) → σ → Option σ
  | [], s => some s
  | f :: rest, s =>
    match Table.find? f.name l with
    | none => readAll access l rest s
    | some v => (f.read access v s).toOption.bind (readAll access l rest)

theorem Field.readAll_cons (access : Access) (l : List (String × Source)) (f : Field σ)
    (rest : List (Field σ)) (s : σ) :
    Field.readAll access l (f :: rest) s = match Table.find? f.name l with
      | none => Field.readAll access l rest s
      | some v => (f.read access v s).toOption.bind (Field.readAll access l rest) := rfl

/-- What stands under other keys plays no part. -/
theorem Field.readAll_skip {fields : List (Field σ)} {key : String}
    (hkey : key ∉ fields.map Field.name) (access : Access) (v : Source)
    (rest : List (String × Source)) (s : σ) :
    Field.readAll access ((key, v) :: rest) fields s = Field.readAll access rest fields s := by
  induction fields generalizing s with
  | nil => rfl
  | cons g fields ih =>
    simp only [List.map_cons, List.mem_cons, not_or] at hkey
    have hfind : Table.find? g.name ((key, v) :: rest) = Table.find? g.name rest :=
      if_neg hkey.1
    have hrest : Field.readAll access ((key, v) :: rest) fields =
        Field.readAll access rest fields :=
      funext fun s => ih hkey.2 s
    rw [Field.readAll_cons, Field.readAll_cons, hfind, hrest]

/-- A field whose entry comes first may as well be read first. -/
theorem Field.readAll_first {fields : List (Field σ)} (hfields : Field.Independent fields)
    {f : Field σ} (hf : f ∈ fields) {v : Source} {rest : List (String × Source)}
    (hfresh : Table.find? f.name rest = none) (s : σ) :
    Field.readAll access ((f.name, v) :: rest) fields s =
      (f.read access v s).toOption.bind (Field.readAll access rest fields) := by
  induction fields generalizing s with
  | nil => cases hf
  | cons g fields ih =>
    obtain ⟨hg, hind⟩ := List.pairwise_cons.mp hfields
    by_cases hname : f.name = g.name
    · -- It is the field declared first, and none of the others has this name.
      have hfg : f = g := by
        rcases List.mem_cons.mp hf with hfg | hf
        · exact hfg
        · exact absurd hname.symm (hg f hf).name
      subst hfg
      have hother : f.name ∉ fields.map Field.name := by
        intro hmem
        obtain ⟨h, hh, heq⟩ := List.mem_map.mp hmem
        exact (hg h hh).name heq.symm
      have hhead : Field.readAll access rest (f :: fields) = Field.readAll access rest fields := by
        funext s
        rw [Field.readAll_cons, hfresh]
      have hrest : Field.readAll access ((f.name, v) :: rest) fields =
          Field.readAll access rest fields :=
        funext fun s => Field.readAll_skip hother access v rest s
      rw [hhead, Field.readAll_cons, hrest, Table.find?, if_pos rfl]
    · have hmem : f ∈ fields := (List.mem_cons.mp hf).resolve_left fun h => hname (h ▸ rfl)
      have hfind : Table.find? g.name ((f.name, v) :: rest) = Table.find? g.name rest :=
        if_neg hname
      have hrest : Field.readAll access ((f.name, v) :: rest) fields = fun s =>
          (f.read access v s).toOption.bind (Field.readAll access rest fields) :=
        funext fun s => ih hind hmem s
      rw [Field.readAll_cons, hfind, hrest]
      -- The field declared first is another one; if it is there, the two change places.
      cases hw : Table.find? g.name rest with
      | none =>
        have hlater :
            Field.readAll access rest (g :: fields) = Field.readAll access rest fields := by
          funext s
          rw [Field.readAll_cons, hw]
        rw [hlater]
      | some w =>
        have hswap := (hg f hmem).symm.swap access v w s
        rw [toOption_bind, toOption_bind] at hswap
        have hlater : Field.readAll access rest (g :: fields) = fun s =>
            (g.read access w s).toOption.bind (Field.readAll access rest fields) := by
          funext s
          rw [Field.readAll_cons, hw]
        show (g.read access w s).toOption.bind _ = _
        rw [hlater, ← Option.bind_assoc, ← Option.bind_assoc, hswap]

/-- **The order of the entries does not matter.** The fields of a record are read as if they stood
in the order in which they are declared, and other entries are passed over. -/
theorem Entries.readFields_eq {fields : List (Field σ)} (hfields : Field.Independent fields)
    {l : List (String × Source)} (hl : Orderly (fields.map Field.name) l) {s : σ}
    (hunset : ∀ f ∈ fields, f.name ∈ Table.keys l → f.isSet s = false) :
    ((Entries.ofList l).readFields access fields false s).toOption =
      Field.readAll access l fields s := by
  induction l generalizing s with
  | nil =>
    have hnone : ∀ fields : List (Field σ), Field.readAll access [] fields s = some s := by
      intro fields
      induction fields with
      | nil => rfl
      | cons f rest ih => exact ih
    rw [hnone]
    rfl
  | cons entry rest ih =>
    obtain ⟨key, v⟩ := entry
    rw [Entries.readFields_cons, Field.look]
    cases hfind : fields.find? fun f => f.name = key with
    | none =>
      have hkey : key ∉ fields.map Field.name := by
        intro hmem
        obtain ⟨f, hf, rfl⟩ := List.mem_map.mp hmem
        simpa using List.find?_eq_none.mp hfind f hf
      have hunset' : ∀ f ∈ fields, f.name ∈ Table.keys rest → f.isSet s = false :=
        fun f hf hmem => hunset f hf (List.mem_cons_of_mem _ hmem)
      rw [Field.readAll_skip hkey, ← ih hl.tail hunset']
      show (v.skip.under (.key key) >>= _).toOption = _
      rw [hl.skip hkey]
      rfl
    | some f =>
      obtain rfl : f.name = key := by simpa using List.find?_some hfind
      have hf : f ∈ fields := List.mem_of_find?_eq_some hfind
      have hname : f.name ∈ fields.map Field.name := List.mem_map_of_mem hf
      have hfresh := hl.fresh hname
      rw [Field.readAll_first hfields hf (hl.find?_rest hname)]
      show ((onlyOnce (f.isSet s) f.name >>= fun _ => .ok (some f)) >>= _).toOption = _
      rw [hunset f hf (by simp)]
      show ((f.read access v s).under (.key f.name) >>= _).toOption = _
      rw [toOption_bind, Loaded.toOption_under]
      cases hread : f.read access v s with
      | error e => rfl
      | ok s' =>
        -- The fields that are still to come are not marked as read by this one.
        refine ih hl.tail fun g hg hmem => ?_
        have hne : f.name ≠ g.name := fun h => hfresh (h ▸ hmem)
        rw [(hfields.apart hf hg hne).left access v s s' hread]
        exact hunset g hg (List.mem_cons_of_mem _ hmem)

/-- Records are read alike if what stands under the names of the fields is. -/
theorem Entries.readFields_agree {fields : List (Field σ)} (hfields : Field.Independent fields)
    {access' : Access} {l l' : List (String × Source)} (hl : Orderly (fields.map Field.name) l)
    (hl' : Orderly (fields.map Field.name) l') {s : σ} (hunset : ∀ f ∈ fields, f.isSet s = false)
    (h : ∀ f ∈ fields, Option.Rel
      (fun v v' => ∀ s, (f.read access v s).toOption = (f.read access' v' s).toOption)
      (Table.find? f.name l) (Table.find? f.name l')) :
    ((Entries.ofList l).readFields access fields false s).toOption =
      ((Entries.ofList l').readFields access' fields false s).toOption := by
  -- In both the fields are read as declared, so they can be compared one by one.
  rw [readFields_eq hfields hl fun f hf _ => hunset f hf,
    readFields_eq hfields hl' fun f hf _ => hunset f hf]
  clear hfields hl hl' hunset
  induction fields generalizing s with
  | nil => rfl
  | cons f rest ih =>
    have hrest : Field.readAll access l rest = Field.readAll access' l' rest :=
      funext fun s => ih fun g hg => h g (List.mem_cons_of_mem _ hg)
    rw [Field.readAll_cons, Field.readAll_cons, hrest]
    rcases either_of_rel (h f (by simp)) with ⟨hnone, hnone'⟩ | ⟨v, v', hv, hv', hread⟩
    · rw [hnone, hnone']
    · rw [hv, hv']
      show (f.read access v s).toOption.bind _ = (f.read access' v' s).toOption.bind _
      rw [hread s]

end

/-! ## Structs, objects and metadata as records -/

/-- What has been read of a struct. -/
structure StructParts where
  shape : Option (Shape Struct) := none
  metadata : Option Metadata := none

/-- The fields of a struct. -/
def StructParts.fields : List (Field StructParts) :=
  [.slot "shape" (·.shape.isSome) Source.readShape fun shape p => { p with shape := some shape },
    .slot "metadata" (·.metadata.isSome) Source.readMetadata fun m p =>
      { p with metadata := some m }]

/-- The struct, if its shape has been read. -/
def StructParts.struct (parts : StructParts) : Loaded Struct :=
  match parts.shape with
  | some shape => .ok (.mk shape (parts.metadata.getD {}))
  | none => Loaded.fault (.missingField "shape")

/-- What has been read of the content of an object. -/
structure ObjectParts where
  fields : Option (Table String Struct) := none
  policy : Option UnknownKeys := none

/-- The fields of the content of an object. -/
def ObjectParts.slots : List (Field ObjectParts) :=
  [.slot "fields" (·.fields.isSome) Source.readFieldTable fun table p =>
      { p with fields := some table },
    .slot "unknownKeys" (·.policy.isSome) Source.readUnknownKeys fun policy p =>
      { p with policy := some policy }]

/-- The object, if its fields have been read. -/
def ObjectParts.object (parts : ObjectParts) : Loaded (Shape Struct) :=
  match parts.fields with
  | some fields => .ok (.object fields (parts.policy.getD .strip))
  | none => Loaded.fault (.missingField "fields")

theorem StructParts.independent : Field.Independent StructParts.fields :=
  List.pairwise_pair.mpr (Field.apart_slot (by decide) (fun _ _ => rfl) (fun _ _ => rfl)
    fun _ _ _ => rfl)

theorem ObjectParts.independent : Field.Independent ObjectParts.slots :=
  List.pairwise_pair.mpr (Field.apart_slot (by decide) (fun _ _ => rfl) (fun _ _ => rfl)
    fun _ _ _ => rfl)

/-- The fields of metadata as slots. -/
theorem MetadataParts.fields_eq : MetadataParts.fields =
    [.slot "deprecation" (·.deprecation.isSome) Source.readDeprecation? fun mark p =>
        { p with deprecation := some mark },
      .slot "default" (·.default.isSome) Source.readDefault? fun v p =>
        { p with default := some v },
      .slot "annotations" (·.annotations.isSome) Source.readAnnotations fun table p =>
        { p with annotations := some table }] := rfl

theorem MetadataParts.independent : Field.Independent MetadataParts.fields := by
  rw [fields_eq, Field.Independent]
  refine .cons (List.forall_mem_cons.mpr ⟨?_, List.forall_mem_singleton.mpr ?_⟩)
    (List.pairwise_pair.mpr ?_)
  · exact Field.apart_slot (by decide) (fun _ _ => rfl) (fun _ _ => rfl) fun _ _ _ => rfl
  · exact Field.apart_slot (by decide) (fun _ _ => rfl) (fun _ _ => rfl) fun _ _ _ => rfl
  · exact Field.apart_slot (by decide) (fun _ _ => rfl) (fun _ _ => rfl) fun _ _ _ => rfl

section

variable {σ α β : Type} {access : Access} {fields : List (Field σ)} {key : String} {v : Source}
  {rest : List (String × Source)} {s : σ} {finish : σ → Loaded β}

/-- A field is read and put in its place, unless it stands there already. -/
theorem Entries.readFields_slot {isSet : σ → Bool} {get : Access → Source → Loaded α}
    {put : α → σ → σ}
    (hfind : (fields.find? fun f => f.name = key) = some (.slot key isSet get put)) :
    ((Entries.ofList ((key, v) :: rest)).readFields access fields false s >>= finish) =
      (onlyOnce (isSet s) key >>= fun _ => (get access v).under (.key key) >>= fun a =>
        (Entries.ofList rest).readFields access fields false (put a s) >>= finish) := by
  rw [Entries.readFields_cons, Field.look, hfind]
  show ((onlyOnce (isSet s) key >>= fun _ => _) >>= _) >>= _ = _
  cases onlyOnce (isSet s) key with
  | error e => rfl
  | ok u =>
    show (((get access v >>= fun a => .ok (put a s)) : Loaded σ).under (.key key) >>= _) >>= _ = _
    cases get access v <;> rfl

theorem Entries.readFields_other (hfind : (fields.find? fun f => f.name = key) = none) :
    ((Entries.ofList ((key, v) :: rest)).readFields access fields false s >>= finish) =
      (v.skip.under (.key key) >>= fun _ =>
        (Entries.ofList rest).readFields access fields false s >>= finish) := by
  rw [Entries.readFields_cons, Field.look, hfind]
  show (v.skip.under (.key key) >>= fun _ => _) >>= _ = _
  cases v.skip <;> rfl

end

/-- The entries of a struct are read as the fields of a record. -/
theorem Entries.readStruct_eq (access : Access) (l : List (String × Source)) (parts : StructParts) :
    (Entries.ofList l).readStruct access parts.shape parts.metadata =
      ((Entries.ofList l).readFields access StructParts.fields false parts >>=
        StructParts.struct) := by
  induction l generalizing parts with
  | nil => cases parts with | mk shape metadata => cases shape <;> rfl
  | cons entry rest ih =>
    obtain ⟨key, v⟩ := entry
    have hread : (Entries.ofList ((key, v) :: rest)).readStruct access parts.shape parts.metadata =
        if key = "shape" then
          onlyOnce parts.shape.isSome key >>= fun _ =>
            (v.readShape access).under (.key key) >>= fun shape =>
              (Entries.ofList rest).readStruct access (some shape) parts.metadata
        else if key = "metadata" then
          onlyOnce parts.metadata.isSome key >>= fun _ =>
            (v.readMetadata access).under (.key key) >>= fun m =>
              (Entries.ofList rest).readStruct access parts.shape (some m)
        else v.skip.under (.key key) >>= fun _ =>
          (Entries.ofList rest).readStruct access parts.shape parts.metadata := rfl
    rw [hread]
    by_cases hshape : key = "shape"
    · subst hshape
      rw [if_pos rfl, Entries.readFields_slot rfl]
      exact congrArg _ (funext fun _ => congrArg _ (funext fun shape =>
        ih { parts with shape := some shape }))
    · rw [if_neg hshape]
      by_cases hmetadata : key = "metadata"
      · subst hmetadata
        rw [if_pos rfl, Entries.readFields_slot rfl]
        exact congrArg _ (funext fun _ => congrArg _ (funext fun m =>
          ih { parts with metadata := some m }))
      · rw [if_neg hmetadata, Entries.readFields_other]
        · exact congrArg _ (funext fun _ => ih parts)
        · simp [StructParts.fields, Field.slot, Ne.symm hshape, Ne.symm hmetadata]

/-- The entries of the content of an object are read as the fields of a record. -/
theorem Entries.readObject_eq (access : Access) (l : List (String × Source)) (parts : ObjectParts) :
    (Entries.ofList l).readObject access parts.fields parts.policy =
      ((Entries.ofList l).readFields access ObjectParts.slots false parts >>=
        ObjectParts.object) := by
  induction l generalizing parts with
  | nil => cases parts with | mk fields policy => cases fields <;> rfl
  | cons entry rest ih =>
    obtain ⟨key, v⟩ := entry
    have hread : (Entries.ofList ((key, v) :: rest)).readObject access parts.fields parts.policy =
        if key = "fields" then
          onlyOnce parts.fields.isSome key >>= fun _ =>
            (v.readFieldTable access).under (.key key) >>= fun table =>
              (Entries.ofList rest).readObject access (some table) parts.policy
        else if key = "unknownKeys" then
          onlyOnce parts.policy.isSome key >>= fun _ =>
            (v.readUnknownKeys access).under (.key key) >>= fun policy =>
              (Entries.ofList rest).readObject access parts.fields (some policy)
        else v.skip.under (.key key) >>= fun _ =>
          (Entries.ofList rest).readObject access parts.fields parts.policy :=
      Entries.readObject_next access (.ok key) v (Entries.ofList rest) parts.fields parts.policy
    rw [hread]
    by_cases hfields : key = "fields"
    · subst hfields
      rw [if_pos rfl, Entries.readFields_slot rfl]
      exact congrArg _ (funext fun _ => congrArg _ (funext fun table =>
        ih { parts with fields := some table }))
    · rw [if_neg hfields]
      by_cases hpolicy : key = "unknownKeys"
      · subst hpolicy
        rw [if_pos rfl, Entries.readFields_slot rfl]
        exact congrArg _ (funext fun _ => congrArg _ (funext fun policy =>
          ih { parts with policy := some policy }))
      · rw [if_neg hpolicy, Entries.readFields_other]
        · exact congrArg _ (funext fun _ => ih parts)
        · simp [ObjectParts.slots, Field.slot, Ne.symm hfields, Ne.symm hpolicy]

theorem Source.readStruct_record (access : Access) (l : List (String × Source)) :
    (Source.record (.ofList l)).readStruct access = (access.enter >>= fun inner =>
      (Entries.ofList l).readFields inner StructParts.fields false {} >>= StructParts.struct) :=
  congrArg (access.enter >>= ·) (funext fun inner => Entries.readStruct_eq inner l {})

theorem Source.readObject_record (access : Access) (l : List (String × Source)) :
    (Source.record (.ofList l)).readContent access .fields = (access.enter >>= fun inner =>
      (Entries.ofList l).readFields inner ObjectParts.slots false {} >>= ObjectParts.object) :=
  congrArg (access.enter >>= ·) (funext fun inner => Entries.readObject_eq inner l {})

theorem Source.readMetadata_record (access : Access) (l : List (String × Source)) :
    (Source.record (.ofList l)).readMetadata access = (access.enter >>= fun inner =>
      (Entries.ofList l).readFields inner MetadataParts.fields false {} >>= fun parts =>
        .ok parts.metadata) := rfl

/-! ## Shapes -/

/-- The shape without content. -/
def Content.absent? : Content → Option (Shape Struct)
  | .nothing leaf => some (.leaf leaf)
  | _ => none

/-- The shape of this kind with this content, if there is one. -/
def Kind.shape? (access : Access) (kind : Kind) : Option Source → Option (Shape Struct)
  | none => kind.content.absent?
  | some v => (v.readContent access kind.content).toOption

/-- The content of a shape, if it comes before the kind. -/
def earlyContent? : List (String × Source) → Option Source
  | [] => none
  | (key, v) :: rest =>
    if key = "kind" then none
    else if key = "of" then (if "kind" ∈ Table.keys rest then some v else none)
    else earlyContent? rest

/-- How the content of a shape with these entries is read. -/
def Access.forContent (access : Access) (l : List (String × Source)) : Access :=
  match earlyContent? l with
  | some _ => .buffered
  | none => access

section

variable {access : Access} {l : List (String × Source)}

theorem find?_of_early {v : Source} (h : earlyContent? l = some v) :
    Table.find? "of" l = some v := by
  induction l with
  | nil => cases h
  | cons entry rest ih =>
    obtain ⟨key, w⟩ := entry
    rw [earlyContent?] at h
    split at h
    · cases h
    · split at h
      · rename_i hkey
        split at h
        · rw [Table.find?, if_pos hkey, h]
        · cases h
      · rename_i hkey
        rw [Table.find?, if_neg hkey, ih h]

theorem Entries.noMore_ofList (hl : Orderly ["kind", "of"] l) (hkind : "kind" ∉ Table.keys l)
    (hof : "of" ∉ Table.keys l) : (Entries.ofList l).noMore = .ok () := by
  induction l with
  | nil => rfl
  | cons entry rest ih =>
    obtain ⟨key, v⟩ := entry
    simp only [Table.keys_cons, List.mem_cons, not_or] at hkind hof
    have hother : (key = "kind" || key = "of") = false := by
      simp [Ne.symm hkind.1, Ne.symm hof.1]
    have hkey : key ∉ ["kind", "of"] := by
      simp [Ne.symm hkind.1, Ne.symm hof.1]
    show (onlyOnce (key = "kind" || key = "of") key >>= fun _ =>
      v.skip.under (.key key) >>= fun _ => (Entries.ofList rest).noMore) = _
    rw [hother, hl.skip hkey]
    exact ih hl.tail hkind.2 hof.2

/-- The kind is looked for behind the content, and then nothing else may follow. -/
theorem Entries.laterKind_ofList (access : Access) (hl : Orderly ["kind", "of"] l)
    (hof : "of" ∉ Table.keys l) (read : Kind → Loaded (Shape Struct)) :
    ((Entries.ofList l).laterKind access >>= fun found => read found.1 >>= fun shape =>
      found.2.noMore >>= fun _ => .ok shape).toOption =
      (Table.find? "kind" l).bind fun v => (v.readKind access).toOption.bind fun kind =>
        (read kind).toOption := by
  induction l with
  | nil => rfl
  | cons entry rest ih =>
    obtain ⟨key, v⟩ := entry
    simp only [Table.keys_cons, List.mem_cons, not_or] at hof
    have hone : onlyOnce (key = "of") key = .ok () := by simp [onlyOnce, Ne.symm hof.1]
    have hread : (Entries.ofList ((key, v) :: rest)).laterKind access =
        (onlyOnce (key = "of") key >>= fun _ =>
          if key = "kind" then
            (v.readKind access).under (.key key) >>= fun kind => .ok (kind, Entries.ofList rest)
          else v.skip.under (.key key) >>= fun _ => (Entries.ofList rest).laterKind access) := rfl
    rw [hread, hone, ok_bind]
    by_cases hkind : key = "kind"
    · subst hkind
      rw [if_pos rfl, Table.find?, if_pos rfl, Option.bind_some]
      have hmore : (Entries.ofList rest).noMore = .ok () :=
        noMore_ofList hl.tail (hl.fresh (by simp)) hof.2
      cases v.readKind access with
      | error e => rfl
      | ok kind =>
        show (read kind >>= fun shape => (Entries.ofList rest).noMore >>= fun _ =>
          .ok shape).toOption = (read kind).toOption
        rw [hmore]
        cases read kind <;> rfl
    · have hkey : key ∉ ["kind", "of"] := by simp [hkind, Ne.symm hof.1]
      rw [if_neg hkind, Table.find?, if_neg hkind, hl.skip hkey]
      exact ih hl.tail hof.2

/-- Behind the kind, only the content is looked at. -/
theorem Entries.readContent_ofList (hl : Orderly ["kind", "of"] l) (hkind : "kind" ∉ Table.keys l)
    (kind : Kind) : ((Entries.ofList l).readContent access kind.content).toOption =
      kind.shape? access (Table.find? "of" l) := by
  induction l with
  | nil =>
    show ((match kind.content with
      | .nothing leaf => .ok (.leaf leaf)
      | _ => Loaded.fault (.missingField "of")) : Loaded (Shape Struct)).toOption = _
    cases kind <;> rfl
  | cons entry rest ih =>
    obtain ⟨key, v⟩ := entry
    simp only [Table.keys_cons, List.mem_cons, not_or] at hkind
    have hone : onlyOnce (key = "kind") key = .ok () := by simp [onlyOnce, Ne.symm hkind.1]
    have hread : (Entries.ofList ((key, v) :: rest)).readContent access kind.content =
        (onlyOnce (key = "kind") key >>= fun _ =>
          if key = "of" then
            (v.readContent access kind.content).under (.key key) >>= fun shape =>
              (Entries.ofList rest).noMore >>= fun _ => .ok shape
          else v.skip.under (.key key) >>= fun _ =>
            (Entries.ofList rest).readContent access kind.content) := rfl
    rw [hread, hone, ok_bind]
    by_cases hof : key = "of"
    · subst hof
      have hmore : (Entries.ofList rest).noMore = .ok () :=
        noMore_ofList hl.tail hkind.2 (hl.fresh (by simp))
      rw [if_pos rfl, Table.find?, if_pos rfl, hmore]
      show _ = (v.readContent access kind.content).toOption
      cases v.readContent access kind.content <;> rfl
    · have hkey : key ∉ ["kind", "of"] := by simp [hof, Ne.symm hkind.1]
      rw [if_neg hof, Table.find?, if_neg hof, hl.skip hkey]
      exact ih hl.tail hkind.2

/-- **Kind and content may stand in either order.** A shape is put together from its kind and its
content; if the content comes first, it must be a JSON value and is then read from a buffer. -/
theorem Entries.readShape_ofList (hl : Orderly ["kind", "of"] l)
    (hearly : ∀ v, earlyContent? l = some v → ∃ w, v.json access = .ok w) :
    ((Entries.ofList l).readShape access).toOption =
      (Table.find? "kind" l).bind fun v => (v.readKind access).toOption.bind fun kind =>
        kind.shape? (access.forContent l) (Table.find? "of" l) := by
  induction l with
  | nil => rfl
  | cons entry rest ih =>
    obtain ⟨key, v⟩ := entry
    have hread : (Entries.ofList ((key, v) :: rest)).readShape access =
        if key = "kind" then
          (v.readKind access).under (.key key) >>= fun kind =>
            (Entries.ofList rest).readContent access kind.content
        else if key = "of" then
          (v.json access).under (.key key) >>= fun _ =>
            (Entries.ofList rest).laterKind access >>= fun found =>
              (v.readContent .buffered found.1.content).withoutPath >>= fun shape =>
                found.2.noMore >>= fun _ => .ok shape
        else v.skip.under (.key key) >>= fun _ => (Entries.ofList rest).readShape access := rfl
    rw [hread]
    by_cases hkind : key = "kind"
    · subst hkind
      have hlater : ∀ kind : Kind,
          ((Entries.ofList rest).readContent access kind.content).toOption =
            kind.shape? access (Table.find? "of" rest) :=
        readContent_ofList hl.tail (hl.fresh (by simp))
      rw [if_pos rfl, toOption_bind, Loaded.toOption_under]
      exact congrArg _ (funext hlater)
    · by_cases hkey : key = "of"
      · subst hkey
        have hlater := laterKind_ofList access hl.tail (hl.fresh (by simp)) fun kind =>
          (v.readContent .buffered kind.content).withoutPath
        rw [if_neg hkind, if_pos rfl]
        by_cases hnamed : "kind" ∈ Table.keys rest
        · have hsome : earlyContent? (("of", v) :: rest) = some v := by simp [earlyContent?, hnamed]
          obtain ⟨w, hw⟩ := hearly v hsome
          rw [hw, Access.forContent, hsome]
          refine hlater.trans ?_
          simp only [Loaded.toOption_withoutPath]
          rfl
        · -- Without a kind there is no shape, whatever the content.
          rw [Table.find?_eq_none_iff.mpr hnamed] at hlater
          have hnone : Table.find? "kind" (("of", v) :: rest) = none := by
            rw [Table.find?, if_neg hkind, Table.find?_eq_none_iff.mpr hnamed]
          rw [hnone, toOption_bind, Loaded.toOption_under]
          cases (v.json access).toOption with
          | none => rfl
          | some w => exact hlater
      · have hkey' : key ∉ ["kind", "of"] := by simp [hkind, hkey]
        have hfind : ∀ name ∈ ["kind", "of"],
            Table.find? name ((key, v) :: rest) = Table.find? name rest := by
          intro name hname
          have hne : key ≠ name := fun heq => hkey' (heq ▸ hname)
          rw [Table.find?, if_neg hne]
        have hsame : earlyContent? ((key, v) :: rest) = earlyContent? rest := by
          rw [earlyContent?, if_neg hkind, if_neg hkey]
        rw [if_neg hkind, if_neg hkey, hl.skip hkey', hfind "kind" (by simp), hfind "of" (by simp),
          Access.forContent, hsame]
        rw [hsame] at hearly
        exact ih hl.tail hearly

end

end ShapeSchema
