import ShapeSchema.Proofs.Load.Layout

/-!
# A document and its layout, side by side

Where the content of a shape comes first in only one of two layouts, it is read in two ways, from
the text and from a buffer. If the content that comes first can be read as a JSON value and is
standard, so are its parts, and down there scalars are read alike in both ways.
-/

namespace ShapeSchema

/-! ## Scalars and kinds -/

section

variable {access : Access} {v : Source}

theorem Source.refuse_toOption {α : Type} (access : Access) (expected : String) (v : Source) :
    (v.refuse access expected : Loaded α).toOption = none := by
  cases v with
  | list items =>
    show (access.enter >>= fun _ => Loaded.fault _).toOption = none
    cases access.enter <;> rfl
  | record entries =>
    show (access.enter >>= fun _ => Loaded.fault _).toOption = none
    cases access.enter <;> rfl
  | _ => rfl

theorem Source.readNothing_agree (access access' : Access) (leaf : Leaf) (v : Source) :
    (v.readNothing access leaf).toOption = (v.readNothing access' leaf).toOption := by
  cases v with
  | null => rfl
  | _ => simp only [readNothing, refuse_toOption]

theorem Source.readUnit_buffered {u : Unit} (h : v.readUnit access = .ok u) :
    v.readUnit .buffered = .ok u := by
  cases access with
  | buffered => exact h
  | streamed room =>
    cases v with
    | null => exact h
    | _ => cases h

/-- A kind that is read from the text is the same kind in a buffer. -/
theorem Source.Regular.readKind_buffered {kind : Kind} (hv : v.Regular)
    (h : v.readKind access = .ok kind) : v.readKind .buffered = .ok kind := by
  cases access with
  | buffered => exact h
  | streamed room =>
    cases hv with
    | string content => exact h
    | @record l _ _ =>
      obtain ⟨inner, henter, -⟩ := bind_eq_ok.mp h
      replace h := (readChoice_record henter).symm.trans (toOption_eq_some.mpr h)
      refine toOption_eq_some.mp ((readChoice_record (l := l) rfl).trans ?_)
      match l with
      | [] => cases h
      | [(name, content)] =>
        obtain ⟨variant, hvariant, hcontent⟩ := Option.bind_eq_some_iff.mp h
        refine Option.bind_eq_some_iff.mpr ⟨variant, hvariant, ?_⟩
        cases variant with
        | unit a =>
          obtain ⟨u, hu, ha⟩ := bind_eq_ok.mp (toOption_eq_some.mp hcontent)
          exact toOption_eq_some.mpr (bind_eq_ok.mpr ⟨u, readUnit_buffered hu, ha⟩)
        | holding read =>
          have hmem := Variant.named_eq_ok (toOption_eq_some.mp hvariant)
          simp [Kind.variants] at hmem
      | _ :: _ :: _ => cases h
    | _ => cases h

theorem Source.readKindItem_agree (hnumber : ∀ n, v ≠ .number n) (access access' : Access) :
    v.readKindItem access = v.readKindItem access' := by
  cases v with
  | number n => exact absurd rfl (hnumber n)
  | _ => rfl

theorem Source.readKindItem_buffered {kind : Kind} (h : v.readKindItem access = .ok kind) :
    v.readKindItem .buffered = .ok kind := by
  cases access with
  | buffered => exact h
  | streamed room =>
    refine (readKindItem_agree (fun n hn => ?_) .buffered (.streamed room)).trans h
    -- From the text, no number is a kind.
    subst hn
    obtain ⟨variant, hvariant, -⟩ := bind_eq_ok.mp h
    rcases n with fault | ⟨i⟩ | x
    · cases hvariant
    · rw [readVariant, if_neg fun h => nomatch h.1] at hvariant
      cases hvariant
    · cases hvariant

end

/-! ## Roles of contents -/

theorem Role.entry_of {l : List (String × Source)} {named : Source} {kind : Kind}
    (hnamed : Table.find? "kind" l = some named) (hkind : named.readKind .buffered = .ok kind) :
    Role.shape.entry l "of" = kind.contentRole := by
  simp only [entry, hnamed]
  exact congrArg afterKind hkind

theorem Role.item_of {vs : List Source} {first : Source} {kind : Kind}
    (hfirst : vs[0]? = some first) (hkind : first.readKindItem .buffered = .ok kind) :
    Role.shape.item vs 1 = kind.contentRole := by
  match vs, hfirst with
  | _ :: _, rfl => exact congrArg Role.afterKind hkind

/-! ## Side by side -/

/-- One of the two values can be read as a JSON value and is written as it must be in a text. -/
def Clear (role : Role) (base : Access) (v v' : Source) : Prop :=
  v.Readable base ∧ Standard role v ∨ v'.Readable base ∧ Standard role v'

/-- The second value is a layout of the first one, and both stand where a document is read in the
way `base`. Either each is read in this way, or one of them is clear; then each may as well be read
from a buffer. -/
structure Layouts (role : Role) (base access access' : Access) (v v' : Source) : Prop where
  regular : v.Regular
  relaid : Relaid role v v'
  movable : Movable role base v
  movable' : Movable role base v'
  way : access = base ∨ access = .buffered
  way' : access' = base ∨ access' = .buffered
  same : access = base ∧ access' = base ∨ Clear role base v v'

theorem Access.enter_of_way {base inner access : Access} (hbase : base.enter = .ok inner)
    (hway : access = base ∨ access = .buffered) :
    ∃ a, access.enter = .ok a ∧ (a = inner ∨ a = .buffered) := by
  rcases hway with rfl | rfl
  · exact ⟨inner, hbase, .inl rfl⟩
  · exact ⟨.buffered, rfl, .inr rfl⟩

theorem Source.Readable.of_way {base access : Access} {v : Source} (h : v.Readable base)
    (hway : access = base ∨ access = .buffered) : v.Readable access := by
  rcases hway with rfl | rfl
  · exact h
  · exact h.buffered

/-- A part of a value that can be read can be read. -/
theorem Source.Readable.part {access inner : Access} {role r : Role} {key : String} {position : Nat}
    {v w : Source} (h : v.Readable access) (henter : access.enter = .ok inner)
    (hpart : Part role key position v r w) : w.Readable inner := by
  cases hpart with
  | entry hmem =>
    obtain ⟨access', henter', hentries⟩ := h.entries
    obtain rfl := Except.ok.inj (henter.symm.trans henter')
    exact hentries _ hmem
  | item hmem =>
    obtain ⟨access', henter', hitems⟩ := h.items
    obtain rfl := Except.ok.inj (henter.symm.trans henter')
    exact hitems w (List.mem_of_getElem? hmem)

/-- In a standard JSON value, contents may come before their kinds or behind them. -/
theorem Source.Readable.movable {access : Access} {role : Role} {v : Source}
    (h : v.Readable access) (hstandard : Standard role v) : Movable role access v := by
  intro r a w hbuffers
  induction hbuffers with
  | @here access inner l v henter hearly =>
    have hpart := @Part.entry .shape "of" 0 l v (Table.mem_of_find? (find?_of_early hearly))
    exact ⟨h.part henter hpart, hstandard.part hpart⟩
  | part henter hpart _ ih => exact ih (h.part henter hpart) (hstandard.part hpart)

/-! Where nothing may be entered, there is nothing to be read. -/

theorem Access.bind_refused {α : Type} {access : Access} {e : LoadError}
    (h : access.enter = .error e) (f : Access → Loaded α) :
    (access.enter >>= f).toOption = none := by
  rw [h]
  rfl

theorem Source.not_readable_record {access : Access} {e : LoadError} (h : access.enter = .error e)
    (entries : Entries) : ¬ (Source.record entries).Readable access := by
  rintro ⟨w, hw⟩
  obtain ⟨a, ha, -⟩ := bind_eq_ok.mp hw
  cases h.symm.trans ha

theorem Source.not_readable_list {access : Access} {e : LoadError} (h : access.enter = .error e)
    (items : Items) : ¬ (Source.list items).Readable access := by
  rintro ⟨w, hw⟩
  obtain ⟨a, ha, -⟩ := bind_eq_ok.mp hw
  cases h.symm.trans ha

theorem Source.Regular.part {role r : Role} {key : String} {position : Nat} {v w : Source}
    (h : v.Regular) (hpart : Part role key position v r w) : w.Regular := by
  cases hpart with
  | entry hmem => exact (regular_record_iff.mp h).2 _ hmem
  | item hmem => exact regular_list_iff.mp h w (List.mem_of_getElem? hmem)

namespace Layouts

variable {role : Role} {base inner access access' : Access} {v v' : Source}

/-- Parts in the same place and with the same role are layouts, too. -/
theorem part (h : Layouts role base access access' v v') (hbase : base.enter = .ok inner)
    {a a' : Access} (ha : access.enter = .ok a) (ha' : access'.enter = .ok a') {r : Role}
    {key : String} {position : Nat} {w w' : Source} (hpart : Part role key position v r w)
    (hpart' : Part role key position v' r w') (hrelaid : Relaid r w w') :
    Layouts r inner a a' w w' where
  regular := h.regular.part hpart
  relaid := hrelaid
  movable := h.movable.part hbase hpart
  movable' := h.movable'.part hbase hpart'
  way := by
    obtain ⟨b, hb, hway⟩ := Access.enter_of_way hbase h.way
    exact Except.ok.inj (hb.symm.trans ha) ▸ hway
  way' := by
    obtain ⟨b, hb, hway⟩ := Access.enter_of_way hbase h.way'
    exact Except.ok.inj (hb.symm.trans ha') ▸ hway
  same := by
    -- The side that is clear stays the same on the way down.
    rcases h.same with ⟨rfl, rfl⟩ | ⟨hread, hstandard⟩ | ⟨hread, hstandard⟩
    · exact .inl ⟨Except.ok.inj (ha.symm.trans hbase), Except.ok.inj (ha'.symm.trans hbase)⟩
    · exact .inr (.inl ⟨hread.part hbase hpart, hstandard.part hpart⟩)
    · exact .inr (.inr ⟨hread.part hbase hpart', hstandard.part hpart'⟩)

/-- What cannot be read as a JSON value is in no buffer. -/
theorem refused (h : Layouts role base access access' v v') (hv : ¬ v.Readable base)
    (hv' : ¬ v'.Readable base) : access = base ∧ access' = base := by
  rcases h.same with hsame | ⟨hread, -⟩ | ⟨hread, -⟩
  · exact hsame
  · exact absurd hread hv
  · exact absurd hread hv'

/-- What stands under the keys that mean something. -/
theorem entries {names : List String} (hrole : role.keys? = some names)
    {l : List (String × Source)} (hbase : base.enter = .ok inner)
    (h : Layouts role base access access' (.record (.ofList l)) v') :
    ∃ a a' l', v' = .record (.ofList l') ∧ access.enter = .ok a ∧ access'.enter = .ok a' ∧
      Orderly names l ∧ Orderly names l' ∧
      ∀ key ∈ names, Option.Rel (Layouts (role.entry l key) inner a a')
        (Table.find? key l) (Table.find? key l') := by
  obtain ⟨hdistinct, hregular⟩ := Source.regular_record_iff.mp h.regular
  have hskip : ∀ entry ∈ l, entry.2.skipFault? = none :=
    fun entry hentry => (hregular entry hentry).skipFault?
  obtain ⟨l', rfl, hl', hparts⟩ := h.relaid.entries hrole hdistinct hskip
  obtain ⟨a, ha, -⟩ := Access.enter_of_way hbase h.way
  obtain ⟨a', ha', -⟩ := Access.enter_of_way hbase h.way'
  refine ⟨a, a', l', rfl, ha, ha', .of_distinct hdistinct hskip, hl',
    fun key hkey => rel_imp (hparts key hkey) fun w w' hw hw' hrelaid => ?_⟩
  have hpart := @Part.entry role key 0 l w (Table.mem_of_find? hw)
  have hpart' := @Part.entry role key 0 l' w' (Table.mem_of_find? hw')
  rw [Relaid.entry_eq hrole hparts] at hpart'
  exact h.part hbase ha ha' hpart hpart' hrelaid

theorem items {vs : List Source} (hbase : base.enter = .ok inner)
    (h : Layouts role base access access' (.list (.ofList vs)) v') :
    ∃ a a' vs', v' = .list (.ofList vs') ∧ access.enter = .ok a ∧ access'.enter = .ok a' ∧
      vs'.length = vs.length ∧
      ∀ i : Nat, Option.Rel (Layouts (role.item vs i) inner a a') vs[i]? vs'[i]? := by
  obtain ⟨vs', rfl, hlength, hparts⟩ := h.relaid.items
  obtain ⟨a, ha, -⟩ := Access.enter_of_way hbase h.way
  obtain ⟨a', ha', -⟩ := Access.enter_of_way hbase h.way'
  refine ⟨a, a', vs', rfl, ha, ha', hlength,
    fun i => rel_imp (hparts i) fun w w' hw hw' hrelaid => ?_⟩
  have hpart := @Part.item role "" i vs w hw
  have hpart' := @Part.item role "" i vs' w' hw'
  rw [Relaid.item_eq hparts] at hpart'
  exact h.part hbase ha ha' hpart hpart' hrelaid

theorem fields {l : List (String × Source)} (hbase : base.enter = .ok inner)
    (h : Layouts .fields base access access' (.record (.ofList l)) v') :
    ∃ a a' l', v' = .record (.ofList l') ∧ access.enter = .ok a ∧ access'.enter = .ok a' ∧
      List.Forall₂ (fun entry entry' => entry'.1 = entry.1 ∧
        Layouts .struct inner a a' entry.2 entry'.2) l l' := by
  obtain ⟨l', rfl, hparts⟩ := h.relaid.fields
  obtain ⟨a, ha, -⟩ := Access.enter_of_way hbase h.way
  obtain ⟨a', ha', -⟩ := Access.enter_of_way hbase h.way'
  refine ⟨a, a', l', rfl, ha, ha', (forall₂_members hparts).imp ?_⟩
  rintro ⟨key, w⟩ ⟨key', w'⟩ ⟨hmem, hmem', hkey, hrelaid⟩
  obtain rfl : key = key' := hkey.symm
  exact ⟨rfl, h.part hbase ha ha' (@Part.entry .fields key 0 l w hmem)
    (@Part.entry .fields key 0 l' w' hmem') hrelaid⟩

/-- The content of a shape is read from a buffer in the document in which it comes first, and then
is clear. -/
theorem forContent {l l' : List (String × Source)} {a a' : Access}
    (hbase : base.enter = .ok inner) (hmovable : Movable .shape base (.record (.ofList l)))
    (hmovable' : Movable .shape base (.record (.ofList l')))
    (hentry : Role.shape.entry l' "of" = Role.shape.entry l "of")
    (hv : Table.find? "of" l = some v) (hv' : Table.find? "of" l' = some v')
    (h : Layouts (Role.shape.entry l "of") inner a a' v v') :
    Layouts (Role.shape.entry l "of") inner (a.forContent l) (a'.forContent l') v v' := by
  -- Content that comes first is clear because it may be moved, whichever document it stands in.
  have hearly : ∀ {u}, earlyContent? l = some u →
      Clear (Role.shape.entry l "of") inner v v' := by
    intro u hu
    obtain rfl : v = u := Option.some.inj (hv.symm.trans (find?_of_early hu))
    exact .inl (hmovable _ _ _ (.here hbase hu))
  have hearly' : ∀ {u}, earlyContent? l' = some u →
      Clear (Role.shape.entry l "of") inner v v' := by
    intro u hu
    obtain rfl : v' = u := Option.some.inj (hv'.symm.trans (find?_of_early hu))
    exact .inr (hentry ▸ hmovable' _ _ _ (.here hbase hu))
  refine ⟨h.regular, h.relaid, h.movable, h.movable', ?_, ?_, ?_⟩
  · rw [Access.forContent]
    split
    · exact .inr rfl
    · exact h.way
  · rw [Access.forContent]
    split
    · exact .inr rfl
    · exact h.way'
  · rw [Access.forContent, Access.forContent]
    split
    · exact .inr (hearly ‹_›)
    · split
      · exact .inr (hearly' ‹_›)
      · exact h.same

/-- A value in which nothing is laid out anew is the same, and clear if it is read in two ways. -/
theorem value {names : List String} (h : Layouts (.value names) base access access' v v') :
    v' = v ∧ (access' = access ∨ v.Readable access ∧ v.Readable access' ∧
      ¬ v.HasEmptyContent names) := by
  obtain rfl := h.relaid.eq
  refine ⟨rfl, ?_⟩
  rcases h.same with ⟨rfl, rfl⟩ | ⟨hread, hstandard⟩ | ⟨hread, hstandard⟩
  · exact .inl rfl
  · exact .inr ⟨hread.of_way h.way, hread.of_way h.way', hstandard.here⟩
  · exact .inr ⟨hread.of_way h.way, hread.of_way h.way', hstandard.here⟩

theorem readKind_agree
    (h : Layouts (.value (Variant.bareNames Kind.variants)) base access access' v v') :
    (v.readKind access).toOption = (v'.readKind access').toOption := by
  obtain ⟨rfl, rfl | ⟨hread, hread', hempty⟩⟩ := h.value
  · rfl
  · exact h.regular.readKind_agree hread hread' hempty

theorem readUnknownKeys_agree
    (h : Layouts (.value (Variant.bareNames UnknownKeys.variants)) base access access' v v') :
    (v.readUnknownKeys access).toOption = (v'.readUnknownKeys access').toOption := by
  obtain ⟨rfl, rfl | ⟨hread, hread', hempty⟩⟩ := h.value
  · rfl
  · exact h.regular.readUnknownKeys_agree hread hread' hempty

theorem readLiteral_agree
    (h : Layouts (.value (Variant.bareNames Literal.variants)) base access access' v v') :
    (v.readLiteral access).toOption = (v'.readLiteral access').toOption := by
  obtain ⟨rfl, rfl | ⟨hread, hread', hempty⟩⟩ := h.value
  · rfl
  · exact h.regular.readLiteral_agree hread hread' hempty

theorem readDeprecation?_agree
    (h : Layouts (.value (Variant.bareNames Deprecation.variants)) base access access' v v') :
    (v.readDeprecation? access).toOption = (v'.readDeprecation? access').toOption := by
  obtain ⟨rfl, rfl | ⟨hread, hread', hempty⟩⟩ := h.value
  · rfl
  · exact h.regular.readDeprecation?_agree hread hread' hempty

theorem readDefault?_agree {names : List String}
    (h : Layouts (.value names) base access access' v v') :
    (v.readDefault? access).toOption = (v'.readDefault? access').toOption := by
  obtain ⟨rfl, rfl | ⟨hread, hread', -⟩⟩ := h.value
  · rfl
  · rw [hread.readDefault?_agree hread']

theorem readAnnotations_agree {names : List String}
    (h : Layouts (.value names) base access access' v v') :
    (v.readAnnotations access).toOption = (v'.readAnnotations access').toOption := by
  obtain ⟨rfl, rfl | ⟨hread, hread', -⟩⟩ := h.value
  · rfl
  · rw [h.regular.readAnnotations_agree hread hread']

end Layouts

end ShapeSchema
