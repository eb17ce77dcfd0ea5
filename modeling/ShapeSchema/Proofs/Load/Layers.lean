import ShapeSchema.Proofs.Load.Buffering

/-!
# Reading two documents layer by layer

Two documents are read side by side, each in a way of its own: from the text or from a buffer. On
each layer, two objects or two lists are read alike if their parts are.
-/

namespace ShapeSchema

/-- Both or neither are there, and two that are there are read alike, each in its own way. -/
def ReadAlike {α : Type} (read : Access → Source → Loaded α) (access access' : Access) :
    Option Source → Option Source → Prop :=
  Option.Rel fun v v' => (read access v).toOption = (read access' v').toOption

/-! ## Objects -/

section

variable {access access' inner inner' : Access} {l l' : List (String × Source)}

theorem Field.slot_agree {σ α : Type} {name : String} {isSet : σ → Bool}
    {get : Access → Source → Loaded α} {put : α → σ → σ} {v v' : Source}
    (h : (get access v).toOption = (get access' v').toOption) (s : σ) :
    ((Field.slot name isSet get put).read access v s).toOption =
      ((Field.slot name isSet get put).read access' v' s).toOption := by
  show (get access v >>= fun a => .ok (put a s)).toOption =
    (get access' v' >>= fun a => .ok (put a s)).toOption
  rw [toOption_bind, toOption_bind, h]

theorem ReadAlike.slot {σ α : Type} {name : String} {isSet : σ → Bool}
    {get : Access → Source → Loaded α} {put : α → σ → σ} {o o' : Option Source}
    (h : ReadAlike get access access' o o') :
    Option.Rel (fun v v' => ∀ s, ((Field.slot name isSet get put).read access v s).toOption =
      ((Field.slot name isSet get put).read access' v' s).toOption) o o' :=
  rel_imp h fun _ _ _ _ hread => Field.slot_agree hread

/-- Records are read alike if what stands under each known key is. -/
theorem Entries.readRecord_agree {σ α : Type} {fields : List (Field σ)}
    (hfields : Field.Independent fields) (henter : access.enter = .ok inner)
    (henter' : access'.enter = .ok inner') (hl : Orderly (fields.map Field.name) l)
    (hl' : Orderly (fields.map Field.name) l') {s : σ} (hunset : ∀ f ∈ fields, f.isSet s = false)
    (h : ∀ f ∈ fields, Option.Rel
      (fun v v' => ∀ s, (f.read inner v s).toOption = (f.read inner' v' s).toOption)
      (Table.find? f.name l) (Table.find? f.name l')) (finish : σ → Loaded α) :
    (access.enter >>= fun inner =>
        (Entries.ofList l).readFields inner fields false s >>= finish).toOption =
      (access'.enter >>= fun inner =>
        (Entries.ofList l').readFields inner fields false s >>= finish).toOption := by
  rw [henter, henter', ok_bind, ok_bind, toOption_bind, toOption_bind,
    readFields_agree hfields hl hl' hunset h]

theorem Source.readStruct_record_agree (henter : access.enter = .ok inner)
    (henter' : access'.enter = .ok inner') (hl : Orderly ["shape", "metadata"] l)
    (hl' : Orderly ["shape", "metadata"] l')
    (hshape : ReadAlike Source.readShape inner inner' (Table.find? "shape" l)
      (Table.find? "shape" l'))
    (hmetadata : ReadAlike Source.readMetadata inner inner' (Table.find? "metadata" l)
      (Table.find? "metadata" l')) :
    ((Source.record (.ofList l)).readStruct access).toOption =
      ((Source.record (.ofList l')).readStruct access').toOption := by
  have hunset : ∀ f ∈ StructParts.fields, f.isSet {} = false :=
    List.forall_mem_cons.mpr ⟨rfl, List.forall_mem_singleton.mpr rfl⟩
  rw [readStruct_record, readStruct_record]
  exact Entries.readRecord_agree StructParts.independent henter henter' hl hl' hunset
    (List.forall_mem_cons.mpr ⟨hshape.slot, List.forall_mem_singleton.mpr hmetadata.slot⟩) _

theorem Source.readObject_agree (henter : access.enter = .ok inner)
    (henter' : access'.enter = .ok inner') (hl : Orderly ["fields", "unknownKeys"] l)
    (hl' : Orderly ["fields", "unknownKeys"] l')
    (htable : ReadAlike Source.readFieldTable inner inner' (Table.find? "fields" l)
      (Table.find? "fields" l'))
    (hpolicy : ReadAlike Source.readUnknownKeys inner inner' (Table.find? "unknownKeys" l)
      (Table.find? "unknownKeys" l')) :
    ((Source.record (.ofList l)).readContent access .fields).toOption =
      ((Source.record (.ofList l')).readContent access' .fields).toOption := by
  have hunset : ∀ f ∈ ObjectParts.slots, f.isSet {} = false :=
    List.forall_mem_cons.mpr ⟨rfl, List.forall_mem_singleton.mpr rfl⟩
  rw [readObject_record, readObject_record]
  exact Entries.readRecord_agree ObjectParts.independent henter henter' hl hl' hunset
    (List.forall_mem_cons.mpr ⟨htable.slot, List.forall_mem_singleton.mpr hpolicy.slot⟩) _

theorem Source.readMetadata_record_agree (henter : access.enter = .ok inner)
    (henter' : access'.enter = .ok inner')
    (hl : Orderly ["deprecation", "default", "annotations"] l)
    (hl' : Orderly ["deprecation", "default", "annotations"] l')
    (hdeprecation : ReadAlike Source.readDeprecation? inner inner' (Table.find? "deprecation" l)
      (Table.find? "deprecation" l'))
    (hdefault : ReadAlike Source.readDefault? inner inner' (Table.find? "default" l)
      (Table.find? "default" l'))
    (hannotations : ReadAlike Source.readAnnotations inner inner' (Table.find? "annotations" l)
      (Table.find? "annotations" l')) :
    ((Source.record (.ofList l)).readMetadata access).toOption =
      ((Source.record (.ofList l')).readMetadata access').toOption := by
  have hunset : ∀ f ∈ MetadataParts.fields, f.isSet {} = false :=
    List.forall_mem_cons.mpr ⟨rfl,
      List.forall_mem_cons.mpr ⟨rfl, List.forall_mem_singleton.mpr rfl⟩⟩
  rw [readMetadata_record, readMetadata_record]
  exact Entries.readRecord_agree MetadataParts.independent henter henter' hl hl' hunset
    (List.forall_mem_cons.mpr ⟨hdeprecation.slot, List.forall_mem_cons.mpr
      ⟨hdefault.slot, List.forall_mem_singleton.mpr hannotations.slot⟩⟩) _

/-- Shapes are read alike if their kinds are and, with this kind, their contents, whichever of them
has to be read from a buffer. -/
theorem Source.readShape_record_agree (henter : access.enter = .ok inner)
    (henter' : access'.enter = .ok inner') (hl : Orderly ["kind", "of"] l)
    (hl' : Orderly ["kind", "of"] l') (hearly : ∀ v, earlyContent? l = some v → v.Readable inner)
    (hearly' : ∀ v, earlyContent? l' = some v → v.Readable inner')
    (hkind : ReadAlike Source.readKind inner inner' (Table.find? "kind" l) (Table.find? "kind" l'))
    (hof : Option.Rel (fun v v' =>
      ∀ named kind, Table.find? "kind" l = some named → named.readKind inner = .ok kind →
        (v.readContent (inner.forContent l) kind.content).toOption =
          (v'.readContent (inner'.forContent l') kind.content).toOption)
      (Table.find? "of" l) (Table.find? "of" l')) :
    ((Source.record (.ofList l)).readShape access).toOption =
      ((Source.record (.ofList l')).readShape access').toOption := by
  show (access.enter >>= fun a => (Entries.ofList l).readShape a).toOption =
    (access'.enter >>= fun a => (Entries.ofList l').readShape a).toOption
  rw [henter, henter', ok_bind, ok_bind, Entries.readShape_ofList hl hearly,
    Entries.readShape_ofList hl' hearly']
  rcases either_of_rel hkind with ⟨hnone, hnone'⟩ | ⟨named, named', hnamed, hnamed', hread⟩
  · rw [hnone, hnone']
    rfl
  · rw [hnamed, hnamed', Option.bind_some, Option.bind_some, ← hread]
    refine Option.bind_congr fun kind hkind => ?_
    rcases either_of_rel hof with ⟨hnone, hnone'⟩ | ⟨v, v', hv, hv', hcontent⟩
    · rw [hnone, hnone']
      rfl
    · rw [hv, hv']
      exact hcontent named kind hnamed (toOption_eq_some.mp hkind)

/-! ## Lists -/

variable {vs vs' : List Source}

theorem Items.finish_cons (access : Access) (taken : Nat) (v : Source) (rest : List Source) :
    ((Items.ofList (v :: rest)).finish access taken).toOption = none := by
  cases access <;> rfl

/-- A list with its first two items read is complete. -/
theorem Items.finish_agree (hlength : vs'.length = vs.length) (access access' : Access)
    (taken : Nat) : ((Items.ofList vs).finish access taken).toOption =
      ((Items.ofList vs').finish access' taken).toOption := by
  match vs, vs' with
  | [], [] => cases access <;> cases access' <;> rfl
  | _ :: _, _ :: _ => rw [finish_cons, finish_cons]

theorem Source.readStruct_list_agree (henter : access.enter = .ok inner)
    (henter' : access'.enter = .ok inner') (hlength : vs'.length = vs.length)
    (hshape : ReadAlike Source.readShape inner inner' vs[0]? vs'[0]?)
    (hmetadata : ReadAlike Source.readMetadata inner inner' vs[1]? vs'[1]?) :
    ((Source.list (.ofList vs)).readStruct access).toOption =
      ((Source.list (.ofList vs')).readStruct access').toOption := by
  show (access.enter >>= fun a => (Items.ofList vs).readStruct a).toOption =
    (access'.enter >>= fun a => (Items.ofList vs').readStruct a).toOption
  rw [henter, henter', ok_bind, ok_bind]
  match vs, vs', hlength, hshape, hmetadata with
  | [], [], _, _, _ => rfl
  | [v], [v'], _, .some hshape, _ =>
    show ((v.readShape inner).under (.index 0) >>= fun shape => .ok (Struct.mk shape {})).toOption =
      ((v'.readShape inner').under (.index 0) >>= fun shape => .ok (Struct.mk shape {})).toOption
    rw [toOption_bind, toOption_bind, Loaded.toOption_under, Loaded.toOption_under, hshape]
  | v :: m :: rest, v' :: m' :: rest', hlength, .some hshape, .some hmetadata =>
    show ((v.readShape inner).under (.index 0) >>= fun shape =>
        (m.readMetadata inner).under (.index 1) >>= fun metadata =>
          (Items.ofList rest).finish inner 2 >>= fun _ => .ok (Struct.mk shape metadata)).toOption =
      ((v'.readShape inner').under (.index 0) >>= fun shape =>
        (m'.readMetadata inner').under (.index 1) >>= fun metadata =>
          (Items.ofList rest').finish inner' 2 >>= fun _ => .ok (Struct.mk shape metadata)).toOption
    have hrest : rest'.length = rest.length := by simpa using hlength
    simp only [toOption_bind, Loaded.toOption_under, hshape, hmetadata,
      Items.finish_agree hrest inner inner']

theorem Source.readShape_list_agree (henter : access.enter = .ok inner)
    (henter' : access'.enter = .ok inner') (hlength : vs'.length = vs.length)
    (hkind : ReadAlike Source.readKindItem inner inner' vs[0]? vs'[0]?)
    (hcontent : ∀ first kind, vs[0]? = some first → first.readKindItem inner = .ok kind →
      ReadAlike (fun a v => v.readContent a kind.content) inner inner' vs[1]? vs'[1]?) :
    ((Source.list (.ofList vs)).readShape access).toOption =
      ((Source.list (.ofList vs')).readShape access').toOption := by
  show (access.enter >>= fun a => (Items.ofList vs).readShape a).toOption =
    (access'.enter >>= fun a => (Items.ofList vs').readShape a).toOption
  rw [henter, henter', ok_bind, ok_bind]
  match vs, vs', hlength, hkind, hcontent with
  | [], [], _, _, _ => rfl
  | [v], [v'], _, .some hkind, _ =>
    show ((v.readKindItem inner).under (.index 0) >>= fun _ => Loaded.fault _).toOption =
      ((v'.readKindItem inner').under (.index 0) >>= fun _ => Loaded.fault _).toOption
    rw [toOption_bind, toOption_bind, Loaded.toOption_under, Loaded.toOption_under, hkind]
  | v :: c :: rest, v' :: c' :: rest', hlength, .some hkind, hcontent =>
    show ((v.readKindItem inner).under (.index 0) >>= fun kind =>
        (c.readContent inner kind.content).under (.index 1) >>= fun shape =>
          (Items.ofList rest).finish inner 2 >>= fun _ => .ok shape).toOption =
      ((v'.readKindItem inner').under (.index 0) >>= fun kind =>
        (c'.readContent inner' kind.content).under (.index 1) >>= fun shape =>
          (Items.ofList rest').finish inner' 2 >>= fun _ => .ok shape).toOption
    have hrest : rest'.length = rest.length := by simpa using hlength
    rw [toOption_bind, toOption_bind, Loaded.toOption_under, Loaded.toOption_under, ← hkind]
    refine Option.bind_congr fun kind hread => ?_
    cases hcontent v kind rfl (toOption_eq_some.mp hread) with
    | some hcontent =>
      have hcontent' : (c.readContent inner kind.content).toOption =
          (c'.readContent inner' kind.content).toOption := hcontent
      simp only [toOption_bind, Loaded.toOption_under, hcontent',
        Items.finish_agree hrest inner inner']

theorem Items.readStructs_agree (h : List.Forall₂ (fun v v' =>
    (v.readStruct access).toOption = (v'.readStruct access').toOption) vs vs') (position : Nat) :
    ((Items.ofList vs).readStructs access position).toOption =
      ((Items.ofList vs').readStructs access' position).toOption := by
  induction h generalizing position with
  | nil => rfl
  | @cons v v' rest rest' hv _ ih =>
    show ((v.readStruct access).under (.index position) >>= fun s =>
        (Items.ofList rest).readStructs access (position + 1) >>= fun ss =>
          .ok (s :: ss)).toOption =
      ((v'.readStruct access').under (.index position) >>= fun s =>
        (Items.ofList rest').readStructs access' (position + 1) >>= fun ss =>
          .ok (s :: ss)).toOption
    simp only [toOption_bind, Loaded.toOption_under, hv, ih]

theorem Entries.readNamed_agree (h : List.Forall₂ (fun entry entry' => entry'.1 = entry.1 ∧
      (Source.readStruct access entry.2).toOption =
        (Source.readStruct access' entry'.2).toOption) l l')
    (table : Table String Struct) : ((Entries.ofList l).readNamed access table).toOption =
      ((Entries.ofList l').readNamed access' table).toOption := by
  induction h generalizing table with
  | nil => rfl
  | @cons entry entry' rest rest' hentry _ ih =>
    obtain ⟨key, v⟩ := entry
    obtain ⟨key', v'⟩ := entry'
    obtain ⟨hkey, hv⟩ := hentry
    obtain rfl : key = key' := hkey.symm
    show ((v.readStruct access).under (.key key) >>= fun s =>
        (Entries.ofList rest).readNamed access (Table.insert key s table)).toOption =
      ((v'.readStruct access').under (.key key) >>= fun s =>
        (Entries.ofList rest').readNamed access' (Table.insert key s table)).toOption
    simp only [toOption_bind, Loaded.toOption_under, hv, ih]

/-- A list of known fields stays as it is, and each field is read alike in both ways. -/
theorem Items.readParts_agree {fields : List (Field MetadataParts)}
    (h : ∀ (i : Nat) f v, fields[i]? = some f → vs[i]? = some v → ∀ s,
      (f.read access v s).toOption = (f.read access' v s).toOption)
    (taken : Nat) (parts : MetadataParts) :
    ((Items.ofList vs).readParts access fields taken parts).toOption =
      ((Items.ofList vs).readParts access' fields taken parts).toOption := by
  induction fields generalizing vs taken parts with
  | nil =>
    show ((Items.ofList vs).finish access taken >>= fun _ => .ok parts).toOption =
      ((Items.ofList vs).finish access' taken >>= fun _ => .ok parts).toOption
    rw [toOption_bind, toOption_bind, finish_agree rfl access access']
  | cons f fields ih =>
    cases vs with
    | nil => rfl
    | cons v rest =>
      show ((f.read access v parts).under (.index taken) >>= fun parts =>
          (Items.ofList rest).readParts access fields (taken + 1) parts).toOption =
        ((f.read access' v parts).under (.index taken) >>= fun parts =>
          (Items.ofList rest).readParts access' fields (taken + 1) parts).toOption
      have hrest : ∀ taken parts,
          ((Items.ofList rest).readParts access fields taken parts).toOption =
            ((Items.ofList rest).readParts access' fields taken parts).toOption :=
        ih fun i => h (i + 1)
      simp only [toOption_bind, Loaded.toOption_under, h 0 f v rfl rfl, hrest]

end

end ShapeSchema
