import ShapeSchema.Load.Document
import ShapeSchema.Proofs.Load.Layers
import ShapeSchema.Proofs.Load.RoundTrip
import ShapeSchema.Proofs.Load.SideBySide

/-!
# Loading does not depend on the layout

A document and a new layout of it are loaded alike if, in both, each content that comes before its
kind may as well come behind it. The induction is over the document; each layer is put together from
its parts by a lemma of its own.
-/

namespace ShapeSchema

/-! ## The induction -/

/-- Two values are read alike in this role, each in its own way. -/
def Role.Agrees (role : Role) (access access' : Access) (v v' : Source) : Prop :=
  match role with
  | .struct => (v.readStruct access).toOption = (v'.readStruct access').toOption
  | .shape => (v.readShape access).toOption = (v'.readShape access').toOption
  | .metadata => (v.readMetadata access).toOption = (v'.readMetadata access').toOption
  | .structs => ∀ k, (v.readContent access (.structs k)).toOption =
      (v'.readContent access' (.structs k)).toOption
  | .object => (v.readContent access .fields).toOption = (v'.readContent access' .fields).toOption
  | .fields => (v.readFieldTable access).toOption = (v'.readFieldTable access').toOption
  | .value _ => True

/-- Whatever role the value has, its layouts are read like it. -/
def LayoutFree (v : Source) : Prop :=
  ∀ role base access access' v', Layouts role base access access' v v' →
    role.Agrees access access' v v'

section

variable {role : Role} {base inner access access' : Access} {v v' : Source}

/-- Content is read alike, whatever the kind. -/
theorem Layouts.readContent_agree {kind : Kind}
    (h : Layouts kind.contentRole base access access' v v') (hv : LayoutFree v) :
    (v.readContent access kind.content).toOption =
      (v'.readContent access' kind.content).toOption := by
  have hagrees := hv _ _ _ _ _ h
  unfold Kind.contentRole at h hagrees
  generalize kind.content = content at h hagrees ⊢
  cases content with
  | nothing leaf =>
    obtain rfl := h.relaid.eq
    rw [Source.readContent_nothing, Source.readContent_nothing]
    exact Source.readNothing_agree access access' leaf _
  | literal =>
    rw [Source.readContent_literal, Source.readContent_literal, toOption_bind, toOption_bind,
      h.readLiteral_agree]
  | struct w =>
    rw [Source.readContent_struct, Source.readContent_struct, toOption_bind, toOption_bind]
    exact congrArg (Option.bind · _) hagrees
  | structs k => exact hagrees k
  | fields => exact hagrees

namespace LayoutFree

/-! ### Scalars -/

theorem of_scalar (hlist : ∀ items, v ≠ .list items) (hrecord : ∀ entries, v ≠ .record entries) :
    LayoutFree v := by
  intro role base access access' v' h
  have heq := h.relaid.eq_of_scalar hlist hrecord
  subst heq
  cases v' with
  | list items => exact absurd rfl (hlist items)
  | record entries => exact absurd rfl (hrecord entries)
  | _ => cases role <;> first | rfl | trivial | exact fun _ => rfl

/-! ### Objects -/

variable {l : List (String × Source)}

theorem struct_record (hl : ∀ entry ∈ l, LayoutFree entry.2) (hbase : base.enter = .ok inner)
    (h : Layouts .struct base access access' (.record (.ofList l)) v') :
    ((Source.record (.ofList l)).readStruct access).toOption =
      (v'.readStruct access').toOption := by
  obtain ⟨a, a', l', rfl, ha, ha', hl₁, hl₂, hparts⟩ := h.entries rfl hbase
  refine Source.readStruct_record_agree ha ha' hl₁ hl₂
    (rel_imp (hparts "shape" (by simp)) fun w w' hw _ hlayouts => ?_)
    (rel_imp (hparts "metadata" (by simp)) fun w w' hw _ hlayouts => ?_)
  · exact hl _ (Table.mem_of_find? hw) _ _ _ _ _ hlayouts
  · exact hl _ (Table.mem_of_find? hw) _ _ _ _ _ hlayouts

theorem shape_record (hl : ∀ entry ∈ l, LayoutFree entry.2) (hbase : base.enter = .ok inner)
    (h : Layouts .shape base access access' (.record (.ofList l)) v') :
    ((Source.record (.ofList l)).readShape access).toOption = (v'.readShape access').toOption := by
  obtain ⟨a, a', l', rfl, ha, ha', hl₁, hl₂, hparts⟩ := h.entries rfl hbase
  have hentry : Role.shape.entry l' "of" = Role.shape.entry l "of" :=
    Relaid.entry_eq rfl (fun key hkey => rel_imp (hparts key hkey) fun _ _ _ _ h => h.relaid) "of"
  obtain ⟨b, hb, hway⟩ := Access.enter_of_way hbase h.way
  obtain ⟨b', hb', hway'⟩ := Access.enter_of_way hbase h.way'
  obtain rfl := Except.ok.inj (hb.symm.trans ha)
  obtain rfl := Except.ok.inj (hb'.symm.trans ha')
  refine Source.readShape_record_agree ha ha' hl₁ hl₂ (fun w hw => ?_) (fun w hw => ?_)
    (rel_imp (hparts "kind" (by simp)) fun w w' _ _ hkind => hkind.readKind_agree)
    (rel_imp (hparts "of" (by simp)) fun w w' hw hw' hlayouts named kind hnamed hkind => ?_)
  · exact (h.movable _ _ _ (.here hbase hw)).1.of_way hway
  · exact (h.movable' _ _ _ (.here hbase hw)).1.of_way hway'
  · have hregular := (Source.regular_record_iff.mp h.regular).2 _ (Table.mem_of_find? hnamed)
    have hcontent := hlayouts.forContent hbase h.movable h.movable' hentry hw hw'
    rw [Role.entry_of hnamed (hregular.readKind_buffered hkind)] at hcontent
    exact hcontent.readContent_agree (hl _ (Table.mem_of_find? hw))

theorem metadata_record (hbase : base.enter = .ok inner)
    (h : Layouts .metadata base access access' (.record (.ofList l)) v') :
    ((Source.record (.ofList l)).readMetadata access).toOption =
      (v'.readMetadata access').toOption := by
  obtain ⟨a, a', l', rfl, ha, ha', hl₁, hl₂, hparts⟩ := h.entries rfl hbase
  exact Source.readMetadata_record_agree ha ha' hl₁ hl₂
    (rel_imp (hparts "deprecation" (by simp)) fun _ _ _ _ h => h.readDeprecation?_agree)
    (rel_imp (hparts "default" (by simp)) fun _ _ _ _ h => h.readDefault?_agree)
    (rel_imp (hparts "annotations" (by simp)) fun _ _ _ _ h => h.readAnnotations_agree)

theorem object_record (hl : ∀ entry ∈ l, LayoutFree entry.2) (hbase : base.enter = .ok inner)
    (h : Layouts .object base access access' (.record (.ofList l)) v') :
    ((Source.record (.ofList l)).readContent access .fields).toOption =
      (v'.readContent access' .fields).toOption := by
  obtain ⟨a, a', l', rfl, ha, ha', hl₁, hl₂, hparts⟩ := h.entries rfl hbase
  refine Source.readObject_agree ha ha' hl₁ hl₂
    (rel_imp (hparts "fields" (by simp)) fun w w' hw _ hlayouts => ?_)
    (rel_imp (hparts "unknownKeys" (by simp)) fun _ _ _ _ h => h.readUnknownKeys_agree)
  exact hl _ (Table.mem_of_find? hw) _ _ _ _ _ hlayouts

theorem fields_record (hl : ∀ entry ∈ l, LayoutFree entry.2) (hbase : base.enter = .ok inner)
    (h : Layouts .fields base access access' (.record (.ofList l)) v') :
    ((Source.record (.ofList l)).readFieldTable access).toOption =
      (v'.readFieldTable access').toOption := by
  obtain ⟨a, a', l', rfl, ha, ha', hparts⟩ := h.fields hbase
  show (access.enter >>= fun a => (Entries.ofList l).readNamed a []).toOption =
    (access'.enter >>= fun a => (Entries.ofList l').readNamed a []).toOption
  rw [ha, ha', ok_bind, ok_bind]
  refine Entries.readNamed_agree (forall₂_imp_of_mem hparts ?_) []
  rintro ⟨key, w⟩ hmem ⟨key', w'⟩ ⟨hkey, hlayouts⟩
  exact ⟨hkey, hl _ hmem _ _ _ _ _ hlayouts⟩

theorem record_refused {e : LoadError} (hbase : base.enter = .error e) {entries entries' : Entries}
    (h : Layouts role base access access' (.record entries) (.record entries')) :
    role.Agrees access access' (.record entries) (.record entries') := by
  have hrefused := Source.not_readable_record hbase
  obtain ⟨rfl, rfl⟩ := h.refused (hrefused entries) (hrefused entries')
  cases role with
  | structs => exact fun _ => rfl
  | value names => trivial
  | _ => exact (Access.bind_refused hbase _).trans (Access.bind_refused hbase _).symm

theorem of_record (hl : ∀ entry ∈ l, LayoutFree entry.2) : LayoutFree (.record (.ofList l)) := by
  intro role base access access' v' h
  obtain ⟨entries', rfl⟩ := h.relaid.record_of_record
  -- With no room left nothing is in a buffer, and both are refused.
  cases hbase : base.enter with
  | error e => exact record_refused hbase h
  | ok inner =>
    cases role with
    | struct => exact struct_record hl hbase h
    | shape => exact shape_record hl hbase h
    | metadata => exact metadata_record hbase h
    | structs => exact fun _ => rfl
    | object => exact object_record hl hbase h
    | fields => exact fields_record hl hbase h
    | value names => trivial

/-! ### Lists -/

variable {vs : List Source}

theorem struct_list (hvs : ∀ v ∈ vs, LayoutFree v) (hbase : base.enter = .ok inner)
    (h : Layouts .struct base access access' (.list (.ofList vs)) v') :
    ((Source.list (.ofList vs)).readStruct access).toOption = (v'.readStruct access').toOption := by
  obtain ⟨a, a', vs', rfl, ha, ha', hlength, hparts⟩ := h.items hbase
  refine Source.readStruct_list_agree ha ha' hlength
    (rel_imp (hparts 0) fun w w' hw _ hlayouts => ?_)
    (rel_imp (hparts 1) fun w w' hw _ hlayouts => ?_)
  · exact hvs _ (List.mem_of_getElem? hw) _ _ _ _ _ hlayouts
  · exact hvs _ (List.mem_of_getElem? hw) _ _ _ _ _ hlayouts

theorem shape_list (hvs : ∀ v ∈ vs, LayoutFree v) (hbase : base.enter = .ok inner)
    (h : Layouts .shape base access access' (.list (.ofList vs)) v') :
    ((Source.list (.ofList vs)).readShape access).toOption = (v'.readShape access').toOption := by
  obtain ⟨a, a', vs', rfl, ha, ha', hlength, hparts⟩ := h.items hbase
  refine Source.readShape_list_agree ha ha' hlength
    (rel_imp (hparts 0) fun w w' hw hw' hfirst => ?_) fun first kind hfirst hkind =>
      rel_imp (hparts 1) fun w w' hw _ hlayouts => ?_
  · obtain rfl := hfirst.relaid.eq
    -- A kind given by its number is read only from a buffer; what is clear has none.
    rcases h.same with ⟨rfl, rfl⟩ | ⟨-, hstandard⟩ | ⟨-, hstandard⟩
    · rw [Except.ok.inj (ha.symm.trans ha')]
    · rw [Source.readKindItem_agree (hstandard.first_ne_number hw) a a']
    · rw [Source.readKindItem_agree (hstandard.first_ne_number hw') a a']
  · rw [Role.item_of hfirst (Source.readKindItem_buffered hkind)] at hlayouts
    exact hlayouts.readContent_agree (hvs _ (List.mem_of_getElem? hw))

theorem metadata_list (hbase : base.enter = .ok inner)
    (h : Layouts .metadata base access access' (.list (.ofList vs)) v') :
    ((Source.list (.ofList vs)).readMetadata access).toOption =
      (v'.readMetadata access').toOption := by
  obtain ⟨a, a', vs', rfl, ha, ha', -, hparts⟩ := h.items hbase
  obtain rfl : vs' = vs := h.relaid.metadata_list
  show (access.enter >>= fun a => (Items.ofList vs').readParts a MetadataParts.fields 0 {} >>=
      fun parts => .ok parts.metadata).toOption =
    (access'.enter >>= fun a => (Items.ofList vs').readParts a MetadataParts.fields 0 {} >>=
      fun parts => .ok parts.metadata).toOption
  have hread : ∀ (i : Nat) f v, MetadataParts.fields[i]? = some f → vs'[i]? = some v → ∀ s,
      (f.read a v s).toOption = (f.read a' v s).toOption := by
    intro i f v hf hv
    have hpart := hparts i
    rw [hv] at hpart
    rw [MetadataParts.fields_eq] at hf
    cases hpart with
    | some hpart =>
      match i, hf with
      | 0, rfl => exact Field.slot_agree hpart.readDeprecation?_agree
      | 1, rfl => exact Field.slot_agree hpart.readDefault?_agree
      | 2, rfl => exact Field.slot_agree hpart.readAnnotations_agree
  rw [ha, ha', ok_bind, ok_bind, toOption_bind, toOption_bind, Items.readParts_agree hread 0 {}]

theorem structs_list (hvs : ∀ v ∈ vs, LayoutFree v) (hbase : base.enter = .ok inner)
    (h : Layouts .structs base access access' (.list (.ofList vs)) v') (k : Series) :
    ((Source.list (.ofList vs)).readContent access (.structs k)).toOption =
      (v'.readContent access' (.structs k)).toOption := by
  obtain ⟨a, a', vs', rfl, ha, ha', -, hparts⟩ := h.items hbase
  show (access.enter >>= fun a => (Items.ofList vs).readStructs a 0 >>=
      fun items => .ok (Shape.series k items)).toOption =
    (access'.enter >>= fun a => (Items.ofList vs').readStructs a 0 >>=
      fun items => .ok (Shape.series k items)).toOption
  have hstructs : List.Forall₂ (Layouts .struct inner a a') vs vs' := forall₂_of_getElem? hparts
  have hread : List.Forall₂ (fun w w' =>
      (w.readStruct a).toOption = (w'.readStruct a').toOption) vs vs' :=
    forall₂_imp_of_mem hstructs fun w hw w' hlayouts => hvs w hw _ _ _ _ _ hlayouts
  rw [ha, ha', ok_bind, ok_bind, toOption_bind, toOption_bind, Items.readStructs_agree hread 0]

theorem list_refused {e : LoadError} (hbase : base.enter = .error e) {items items' : Items}
    (h : Layouts role base access access' (.list items) (.list items')) :
    role.Agrees access access' (.list items) (.list items') := by
  have hrefused := Source.not_readable_list hbase
  obtain ⟨rfl, rfl⟩ := h.refused (hrefused items) (hrefused items')
  cases role with
  | structs => exact fun _ => (Access.bind_refused hbase _).trans (Access.bind_refused hbase _).symm
  | object => simp only [Role.Agrees, Source.readContent, Source.refuse_toOption]
  | fields => rfl
  | value names => trivial
  | _ => exact (Access.bind_refused hbase _).trans (Access.bind_refused hbase _).symm

theorem of_list (hvs : ∀ v ∈ vs, LayoutFree v) : LayoutFree (.list (.ofList vs)) := by
  intro role base access access' v' h
  obtain ⟨vs', rfl, -⟩ := h.relaid.items
  cases hbase : base.enter with
  | error e => exact list_refused hbase h
  | ok inner =>
    cases role with
    | struct => exact struct_list hvs hbase h
    | shape => exact shape_list hvs hbase h
    | metadata => exact metadata_list hbase h
    | structs => exact structs_list hvs hbase h
    | object => simp only [Role.Agrees, Source.readContent, Source.refuse_toOption]
    | fields => rfl
    | value names => trivial

end LayoutFree

/-- **No layout matters**, whichever of the two values is read in which way. -/
theorem Source.Regular.layoutFree (h : v.Regular) : LayoutFree v := by
  induction h with
  | list _ ih => exact .of_list ih
  | record _ _ ih => exact .of_record ih
  | null => exact .of_scalar (fun _ h => nomatch h) fun _ h => nomatch h
  | bool b => exact .of_scalar (fun _ h => nomatch h) fun _ h => nomatch h
  | number n => exact .of_scalar (fun _ h => nomatch h) fun _ h => nomatch h
  | string content => exact .of_scalar (fun _ h => nomatch h) fun _ h => nomatch h

end

/-! ## Documents -/

/-- **Loading does not depend on the layout.** A document without repeated keys and a new layout of
it are loaded as the same struct, or neither is loaded, if in both of them each content that comes
before its kind may as well come behind it. -/
theorem Struct.loadBytes_layout {bytes bytes' : List UInt8}
    (hregular : (Source.ofBytes bytes).Regular)
    (hrelaid : Relaid .struct (Source.ofBytes bytes) (Source.ofBytes bytes'))
    (hmovable : Movable .struct .document (Source.ofBytes bytes))
    (hmovable' : Movable .struct .document (Source.ofBytes bytes')) (s : Struct) :
    Struct.loadBytes bytes = .ok s ↔ Struct.loadBytes bytes' = .ok s := by
  have hlayouts : Layouts .struct .document .document .document (Source.ofBytes bytes)
      (Source.ofBytes bytes') :=
    ⟨hregular, hrelaid, hmovable, hmovable', .inl rfl, .inl rfl, .inl ⟨rfl, rfl⟩⟩
  have hagree : ((Source.ofBytes bytes).readStruct .document).toOption =
      ((Source.ofBytes bytes').readStruct .document).toOption :=
    hregular.layoutFree _ _ _ _ _ hlayouts
  rw [← toOption_eq_some, ← toOption_eq_some]
  exact iff_of_eq (congrArg (· = some s) hagree)

/-! ### An array of integers, the kind first and the content first -/

namespace Source

/-- A struct with a shape of this kind and with this content, the kind first. -/
def kindFirst (kind : Kind) (content : Source) : Source :=
  .record (.ofList
    [("shape", .record (.ofList [("kind", .string (.ok kind.text)), ("of", content)]))])

/-- The same struct with the content first. -/
def contentFirst (kind : Kind) (content : Source) : Source :=
  .record (.ofList
    [("shape", .record (.ofList [("of", content), ("kind", .string (.ok kind.text))]))])

section

variable {kind : Kind} {content content' : Source}

theorem regular_kindFirst (h : content.Regular) : (kindFirst kind content).Regular := by
  refine .record (by simp [Table.Distinct, Table.keys]) (List.forall_mem_singleton.mpr ?_)
  refine .record (by simp [Table.Distinct, Table.keys]) ?_
  exact List.forall_mem_cons.mpr ⟨.string _, List.forall_mem_singleton.mpr h⟩

theorem relaid_contentFirst (h : Relaid kind.contentRole content content') :
    Relaid .struct (kindFirst kind content) (contentFirst kind content') := by
  refine @Relaid.record .struct _ _ [("shape", .record (.ofList [("of", content'),
    ("kind", .string (.ok kind.text))]))] [] _ rfl rfl ?_ (by simp) (.refl _)
  refine List.forall_mem_singleton.mpr ?_
  refine @Relaid.record .shape _ _ [("kind", .string (.ok kind.text)), ("of", content')] [] _
    rfl rfl ?_ (by simp) (.swap _ _ _)
  refine List.forall_mem_cons.mpr ⟨.refl _ _, List.forall_mem_singleton.mpr ?_⟩
  rw [Role.entry_of rfl (kind.source_read .buffered)]
  exact h

/-- The order of kind and content does not matter for what is standard. -/
theorem standard_of_content {l : List (String × Source)} (h : Standard kind.contentRole content)
    (hl : ∀ key v, (key, v) ∈ l →
      key = "kind" ∧ v = .string (.ok kind.text) ∨ key = "of" ∧ v = content)
    (hkind : Table.find? "kind" l = some (.string (.ok kind.text))) :
    Standard .struct (.record (.ofList [("shape", .record (.ofList l))])) := by
  refine .of_parts (fun h => h) fun key position inner w hpart => ?_
  obtain ⟨hmem, rfl⟩ := Part.record_iff.mp hpart
  obtain ⟨rfl, rfl⟩ : key = "shape" ∧ w = _ := by simpa using hmem
  refine .of_parts (fun ⟨_, _, h⟩ => nomatch h) fun key position inner w hpart => ?_
  obtain ⟨hmem, rfl⟩ := Part.record_iff.mp hpart
  rcases hl key w hmem with ⟨rfl, rfl⟩ | ⟨rfl, rfl⟩
  · exact .string _ _
  · show Standard (Role.shape.entry l "of") w
    rw [Role.entry_of hkind (kind.source_read .buffered)]
    exact h

theorem standard_kindFirst (h : Standard kind.contentRole content) :
    Standard .struct (kindFirst kind content) :=
  standard_of_content h (by simp [or_comm]) rfl

theorem standard_contentFirst (h : Standard kind.contentRole content) :
    Standard .struct (contentFirst kind content) :=
  standard_of_content h (by simp [or_comm]) rfl

end

/-- The struct of an integer, with more entries. -/
def intStruct (more : List (String × Source)) : Source :=
  .record (.ofList (more ++ [("shape", .list (.ofList [.string (.ok "int"), .null]))]))

theorem regular_intStruct : (intStruct []).Regular := by
  refine .record (by simp [Table.Distinct, Table.keys]) (List.forall_mem_singleton.mpr (.list ?_))
  exact List.forall_mem_cons.mpr ⟨.string _, List.forall_mem_singleton.mpr .null⟩

theorem relaid_intStruct {note : Source} (h : note.skipFault? = none) :
    Relaid .struct (intStruct []) (intStruct [("note", note)]) := by
  refine @Relaid.record .struct _ [("shape", _)] [("shape", _)] [("note", note)] _ rfl rfl
    (List.forall_mem_singleton.mpr (.refl _ _)) (List.forall_mem_singleton.mpr ⟨by simp, h⟩) ?_
  exact .swap _ _ _

theorem standard_intStruct {more : List (String × Source)}
    (hmore : ∀ entry ∈ more, entry.1 = "note") : Standard .struct (intStruct more) := by
  refine .of_parts (fun h => h) fun key position inner w hpart => ?_
  obtain ⟨hmem, rfl⟩ := Part.record_iff.mp hpart
  rcases List.mem_append.mp hmem with hmem | hmem
  · obtain rfl : key = "note" := hmore _ hmem
    exact .nothing w
  · obtain ⟨rfl, rfl⟩ : key = "shape" ∧ w = _ := by simpa using hmem
    refine .of_parts (fun ⟨_, _, h⟩ => nomatch h) fun key position inner w hpart => ?_
    obtain ⟨hmem, rfl⟩ := Part.list_iff.mp hpart
    match position with
    | 0 => exact .nothing w
    | 1 => exact .nothing w

end Source

/-- The text of a struct with a shape of this kind and with this content, the kind first. -/
def kindFirstText (kind content : String) : String :=
  "\x7b\"shape\":\x7b\"kind\":\"" ++ kind ++ "\",\"of\":" ++ content ++ "\x7d\x7d"

/-- The text of the same struct with the content first. -/
def contentFirstText (kind content : String) : String :=
  "\x7b\"shape\":\x7b\"of\":" ++ content ++ ",\"kind\":\"" ++ kind ++ "\"\x7d\x7d"

/-- An array of integers. -/
def arrayText : String := kindFirstText "array" "\x7b\"shape\":[\"int\",null]\x7d"

/-- The same array, the content first and with a note in it. -/
def notedArrayText (note : String) : String :=
  contentFirstText "array" ("\x7b\"note\":" ++ note ++ ",\"shape\":[\"int\",null]\x7d")

theorem loadBytes_layout_array :
    (Source.ofBytes (Source.bytesOf arrayText)).Regular ∧
    Relaid .struct (Source.ofBytes (Source.bytesOf arrayText))
      (Source.ofBytes (Source.bytesOf (notedArrayText "true"))) ∧
    Movable .struct .document (Source.ofBytes (Source.bytesOf arrayText)) ∧
    Movable .struct .document (Source.ofBytes (Source.bytesOf (notedArrayText "true"))) ∧
    Struct.loadBytes (Source.bytesOf (notedArrayText "true")) = .ok (.array .int) := by
  have htree : Source.ofBytes (Source.bytesOf arrayText) = .kindFirst .array (.intStruct []) := rfl
  have htree' : Source.ofBytes (Source.bytesOf (notedArrayText "true")) =
      .contentFirst .array (.intStruct [("note", .bool true)]) := rfl
  have hregular : (Source.ofBytes (Source.bytesOf arrayText)).Regular := by
    rw [htree]
    exact Source.regular_kindFirst Source.regular_intStruct
  have hrelaid : Relaid .struct (Source.ofBytes (Source.bytesOf arrayText))
      (Source.ofBytes (Source.bytesOf (notedArrayText "true"))) := by
    rw [htree, htree']
    exact Source.relaid_contentFirst (Source.relaid_intStruct rfl)
  have hmovable : Movable .struct .document (Source.ofBytes (Source.bytesOf arrayText)) := by
    rw [htree]
    exact Source.Readable.movable ⟨_, rfl⟩
      (Source.standard_kindFirst (Source.standard_intStruct (by simp)))
  have hmovable' : Movable .struct .document
      (Source.ofBytes (Source.bytesOf (notedArrayText "true"))) := by
    rw [htree']
    exact Source.Readable.movable ⟨_, rfl⟩
      (Source.standard_contentFirst (Source.standard_intStruct (by simp)))
  exact ⟨hregular, hrelaid, hmovable, hmovable',
    (Struct.loadBytes_layout hregular hrelaid hmovable hmovable' _).mp rfl⟩

/-- The second text is a new layout of the first one, and only one of them is loaded. -/
def LayoutMatters (text text' : String) : Prop :=
  (Source.ofBytes (Source.bytesOf text)).Regular ∧
  Relaid .struct (Source.ofBytes (Source.bytesOf text)) (Source.ofBytes (Source.bytesOf text')) ∧
  (Struct.load text).toOption.isSome ≠ (Struct.load text').toOption.isSome

theorem LayoutMatters.of_trees {kind : Kind} {text text' : String} {content content' : Source}
    (htree : Source.ofBytes (Source.bytesOf text) = .kindFirst kind content)
    (htree' : Source.ofBytes (Source.bytesOf text') = .contentFirst kind content')
    (hregular : content.Regular) (hrelaid : Relaid kind.contentRole content content')
    (hload : (Struct.load text).toOption.isSome ≠ (Struct.load text').toOption.isSome) :
    LayoutMatters text text' := by
  refine ⟨?_, ?_, hload⟩
  · rw [htree]
    exact Source.regular_kindFirst hregular
  · rw [htree, htree']
    exact Source.relaid_contentFirst hrelaid

/-- The struct of an integer, the kind of which is given by its number. -/
def numberedInt : Json := .array [.array [.int 3, .null]]

/-- Content that comes first may have an empty object where there is nothing, and the number of a
kind in place of its name. On the other hand, a number out of range matters there even under a key
that means nothing. -/
theorem layout_matters :
    LayoutMatters (kindFirstText "literal" "\x7b\"null\":\x7b\x7d\x7d")
      (contentFirstText "literal" "\x7b\"null\":\x7b\x7d\x7d") ∧
    LayoutMatters (kindFirstText "array" "[[3,null]]") (contentFirstText "array" "[[3,null]]") ∧
    LayoutMatters arrayText (notedArrayText "1e999") := by
  refine ⟨?_, ?_, ?_⟩
  · have hregular : (Source.record (.ofList [("null", .record (.ofList []))])).Regular := by
      refine .record (by simp [Table.Distinct, Table.keys]) (List.forall_mem_singleton.mpr ?_)
      exact .record (by simp [Table.Distinct, Table.keys]) (by simp)
    exact @LayoutMatters.of_trees .literal _ _ _ _ rfl rfl hregular (.refl _ _) (by decide +kernel)
  · have hregular : numberedInt.source.Regular :=
      .list (List.forall_mem_singleton.mpr (.list
        (List.forall_mem_cons.mpr ⟨.number _, List.forall_mem_singleton.mpr .null⟩)))
    have hkind : (Json.string "array").WellFormed := trivial
    have hcontent : numberedInt.WellFormed := by
      simp [numberedInt, Json.WellFormed, Json.WellFormedItems, Json.int, Number.InRange, IsInt64]
    have hfirst : (Json.object
        [("shape", .object [("kind", .string "array"), ("of", numberedInt)])]).WellFormed :=
      Json.wellFormed_single (Json.wellFormed_pair (by decide) hkind hcontent)
    have hsecond : (Json.object
        [("shape", .object [("of", numberedInt), ("kind", .string "array")])]).WellFormed :=
      Json.wellFormed_single (Json.wellFormed_pair (by decide) hcontent hkind)
    -- The texts are those of JSON values, so that no number has to be read from its digits.
    have htree : Source.ofBytes (Source.bytesOf (kindFirstText "array" "[[3,null]]")) =
        .kindFirst .array numberedInt.source :=
      (congrArg Source.ofBytes (by decide +kernel)).trans
        (Json.ofBytesBy_compact hfirst (List.forall_mem_nil _))
    have htree' : Source.ofBytes (Source.bytesOf (contentFirstText "array" "[[3,null]]")) =
        .contentFirst .array numberedInt.source :=
      (congrArg Source.ofBytes (by decide +kernel)).trans
        (Json.ofBytesBy_compact hsecond (List.forall_mem_nil _))
    exact .of_trees htree htree' hregular (.refl _ _) (by decide +kernel)
  · have htree : Source.ofBytes (Source.bytesOf (notedArrayText "1e999")) =
        .contentFirst .array (.intStruct [("note",
          .number (NumberLiteral.double .scaled ⟨false, [0x31], [], 999⟩))]) := rfl
    exact @LayoutMatters.of_trees .array _ _ _ _ rfl htree Source.regular_intStruct
      (Source.relaid_intStruct rfl) (by decide +kernel)

end ShapeSchema
