import ShapeSchema.Proofs.Schema.EqualEncoding
import ShapeSchema.Proofs.Schema.Meaning
import ShapeSchema.Proofs.Schema.RequiredPlaces

/-!
# Equal structs have equal schemas

Equal structs may have their fields in another order, and then so have their schemas: the properties,
which are a table, and the names of those that are required, which are a list. The schemas of equal
structs are equal up to the order of entries and the order of these names.
-/

namespace ShapeSchema

/-! ## Shape by shape -/

section

variable {free : Place → Prop}

theorem agreeBut_string (keyword value : String) {f g : Fragment} (h : Fragment.AgreeBut free f g) :
    Fragment.AgreeBut free ((keyword, .string value) :: f) ((keyword, .string value) :: g) :=
  Table.Agree.cons (.same (Json.same_string_iff.mpr rfl)) h

theorem agreeBut_leaf {l l' : Leaf} (hl : l.same l' = true) {f : Fragment}
    (hf : l.fragment? = some f) : ∃ g, l'.fragment? = some g ∧ Fragment.AgreeBut free f g := by
  have hfloat : ∀ (x y : Binary64) f, x.same y = true → (Literal.float x).fragment? = some f →
      ∃ g, (Literal.float y).fragment? = some g ∧ Fragment.AgreeBut free f g := by
    intro x y f hxy hf
    cases x with
    | finite x =>
      cases y with
      | finite y =>
        obtain rfl := Option.some.inj hf
        exact ⟨_, rfl, agreeBut_string _ _ (Table.Agree.cons (.same hxy) .nil)⟩
      | _ => cases hxy
    | _ => cases hf
  rcases Leaf.same_iff.mp hl with rfl | ⟨x, y, rfl, rfl, hxy⟩
  · cases l with
    | never =>
      obtain rfl := Option.some.inj hf
      exact ⟨_, rfl, Table.Agree.cons (.same rfl) .nil⟩
    | unknown =>
      obtain rfl := Option.some.inj hf
      exact ⟨_, rfl, .nil⟩
    | date => cases hf
    | literal value =>
      cases value with
      | float x => exact hfloat x x f x.same_refl hf
      | int i =>
        obtain rfl := Option.some.inj hf
        exact ⟨_, rfl, agreeBut_string _ _
          (Table.Agree.cons (.same (Json.same_number_iff.mpr ⟨_, rfl, Number.same_refl _⟩)) .nil)⟩
      | bool b =>
        obtain rfl := Option.some.inj hf
        exact ⟨_, rfl, agreeBut_string _ _
          (Table.Agree.cons (.same (Json.same_bool_iff.mpr rfl)) .nil)⟩
      | string s =>
        obtain rfl := Option.some.inj hf
        exact ⟨_, rfl, agreeBut_string _ _ (agreeBut_string _ _ .nil)⟩
      | null =>
        obtain rfl := Option.some.inj hf
        exact ⟨_, rfl, agreeBut_string _ _ .nil⟩
      | _ => cases hf
    | _ =>
      obtain rfl := Option.some.inj hf
      exact ⟨_, rfl, agreeBut_string _ _ .nil⟩
  · exact hfloat x y f hxy hf

/-- Arrays of fragments. -/
theorem sameBut_list {fs gs : List Fragment} (hlength : fs.length = gs.length)
    (h : ∀ (i : Nat) f g, fs[i]? = some f → gs[i]? = some g →
      Json.SameBut (fun place => free (Nat.repr i :: place)) (.object f) (.object g)) :
    Json.SameBut free (Fragment.list fs) (Fragment.list gs) := by
  refine .array (by simpa using hlength) fun i v w hv hw => ?_
  rw [List.getElem?_map, Option.map_eq_some_iff] at hv hw
  obtain ⟨f, hf, rfl⟩ := hv
  obtain ⟨g, hg, rfl⟩ := hw
  exact h i f g hf hg

theorem agreeBut_wrapper (w : Wrapper) {f g : Fragment} (hf : Table.Distinct f)
    (hg : Table.Distinct g) (h : Fragment.AgreeBut (fun place => free (w.steps ++ place)) f g) :
    Fragment.AgreeBut free (w.fragment f) (w.fragment g) := by
  cases w with
  | option => exact h
  | nullable =>
    refine Table.Agree.cons (sameBut_list rfl fun i f' g' hf' hg' => ?_) .nil
    match i with
    | 0 =>
      obtain rfl : f = f' := Option.some.inj hf'
      obtain rfl : g = g' := Option.some.inj hg'
      exact .of_agree hf hg h
    | 1 =>
      obtain rfl : Fragment.null = f' := Option.some.inj hf'
      obtain rfl : Fragment.null = g' := Option.some.inj hg'
      exact .same rfl
    | _ + 2 => simp at hf'
  | array => exact Table.Agree.cons (.of_agree hf hg h) (agreeBut_string _ _ .nil)
  | dict => exact agreeBut_string _ _ (Table.Agree.cons (.of_agree hf hg h) .nil)

theorem agreeBut_series (k : Series) {fs gs : List Fragment} (hlength : fs.length = gs.length)
    (h : ∀ (i : Nat) f g, fs[i]? = some f → gs[i]? = some g →
      Json.SameBut (fun place => free (k.keyword :: Nat.repr i :: place)) (.object f) (.object g)) :
    Fragment.AgreeBut free (k.fragment fs) (k.fragment gs) := by
  cases k with
  | tuple =>
    have hcount : (Json.nat fs.length).Same (.nat gs.length) := by
      rw [hlength]
      exact Json.same_number_iff.mpr ⟨_, rfl, Number.same_refl _⟩
    exact Table.Agree.cons (sameBut_list hlength h) (agreeBut_string _ _
      (Table.Agree.cons (.same hcount) (Table.Agree.cons (.same hcount) .nil)))
  | union => exact Table.Agree.cons (sameBut_list hlength h) .nil

/-- The names of the nodes that are required. -/
def requiredNames (nodes : List (String × Node)) : List String :=
  Table.keys (nodes.filter fun (_, node) => node.required)

theorem mem_requiredNames {nodes : List (String × Node)} (hnodes : Table.Distinct nodes)
    {name : String} : name ∈ requiredNames nodes ↔
      ∃ node, Table.find? name nodes = some node ∧ node.required = true := by
  constructor
  · intro h
    obtain ⟨⟨_, node⟩, hnode, rfl⟩ := List.mem_map.mp h
    obtain ⟨hmem, hrequired⟩ := List.mem_filter.mp hnode
    exact ⟨node, hnodes.find?_eq hmem, hrequired⟩
  · rintro ⟨node, hnode, hrequired⟩
    exact List.mem_map.mpr
      ⟨(name, node), List.mem_filter.mpr ⟨Table.mem_of_find? hnode, hrequired⟩, rfl⟩

/-- There is no keyword for no names, which is so on both sides or on none. -/
theorem agreeBut_required {names names' : List String} (hfree : free ["required"])
    (h : names.Perm names') :
    Fragment.AgreeBut free
      (if names.isEmpty then [] else [("required", .array (names.map .string))])
      (if names'.isEmpty then [] else [("required", .array (names'.map .string))]) := by
  by_cases hempty : names = []
  · subst hempty
    obtain rfl : names' = [] := h.symm.eq_nil
    exact .nil
  · have hempty' : names' ≠ [] := by
      rintro rfl
      exact hempty h.eq_nil
    rw [if_neg (by simpa using hempty), if_neg (by simpa using hempty')]
    exact Table.Agree.cons (.names hfree h) .nil

theorem agreeBut_object (policy : UnknownKeys) {nodes nodes' : List (String × Node)}
    (hnodes : Table.Distinct nodes) (hnodes' : Table.Distinct nodes') (hfree : free ["required"])
    (h : Table.Agree (fun name node node' => node.required = node'.required ∧
      Json.SameBut (fun place => free ("properties" :: name :: place)) (.object node.schema)
        (.object node'.schema)) nodes nodes') :
    Fragment.AgreeBut free (objectFragment policy nodes) (objectFragment policy nodes') := by
  have hdistinct : ∀ nodes : List (String × Node), Table.Distinct nodes →
      Table.Distinct (nodes.map fun (name, node) => (name, Json.object node.schema)) :=
    fun _ hnodes => hnodes.map fun node => Json.object node.schema
  have hproperties : Json.SameBut (fun place => free ("properties" :: place))
      (.object (Table.ofList (nodes.map fun (name, node) => (name, .object node.schema))))
      (.object (Table.ofList (nodes'.map fun (name, node) => (name, .object node.schema)))) := by
    rw [(hdistinct _ hnodes).ofList_eq, (hdistinct _ hnodes').ofList_eq]
    exact .of_agree (hdistinct _ hnodes) (hdistinct _ hnodes') (h.map fun _ _ _ h => h.2)
  have hnames : (requiredNames nodes).Perm (requiredNames nodes') := by
    refine (List.perm_ext_iff_of_nodup (hnodes.filter _) (hnodes'.filter _)).mpr fun name => ?_
    refine (mem_requiredNames hnodes).trans (Iff.trans ?_ (mem_requiredNames hnodes').symm)
    rcases h.either name with ⟨hnone, hnone'⟩ | ⟨node, node', hnode, hnode', hrequired, -⟩
    · simp [hnone, hnone']
    · simp [hnode, hnode', hrequired]
  exact agreeBut_string _ _ (Table.Agree.cons hproperties
    (Table.Agree.cons (.same (Json.same_bool_iff.mpr rfl)) (agreeBut_required hfree hnames)))

end

/-! ## Metadata -/

theorem agreeBut_mark (free : Place → Prop) (mark : Option Deprecation) :
    Table.Distinct ((mark.map Fragment.ofDeprecation).getD []) ∧
      Fragment.AgreeBut free ((mark.map Fragment.ofDeprecation).getD [])
        ((mark.map Fragment.ofDeprecation).getD []) := by
  rcases mark with _ | _ | message
  · exact ⟨List.nodup_nil, .nil⟩
  · exact ⟨by simp [Fragment.ofDeprecation, Fragment.deprecated, Table.Distinct],
      Table.Agree.cons (.same rfl) .nil⟩
  · exact ⟨by simp [Fragment.ofDeprecation, Fragment.deprecatedWithMessage, Table.Distinct],
      Table.Agree.cons (.same rfl) (agreeBut_string _ _ .nil)⟩

theorem agreeBut_default (free : Place → Prop) {v w : Option Json} (h : Option.Rel Json.Same v w) :
    Table.Distinct ((v.map Fragment.defaultValue).getD []) ∧
      Fragment.AgreeBut free ((v.map Fragment.defaultValue).getD [])
        ((w.map Fragment.defaultValue).getD []) := by
  cases h with
  | none => exact ⟨List.nodup_nil, .nil⟩
  | some hvw =>
    exact ⟨by simp [Fragment.defaultValue, Table.Distinct], Table.Agree.cons (.same hvw) .nil⟩

namespace Struct

theorem metadata_of_same {s t : Struct} (h : s.Same t) : s.metadata.same t.metadata = true := by
  obtain ⟨shape, m⟩ := s
  obtain ⟨shape', m'⟩ := t
  exact (same_iff.mp h).2

section

variable {s t : Struct} (hs : s.WellFormed) (ht : t.WellFormed) (h : s.Same t)

include hs ht h

theorem encodedDefault_of_same {encoded : Option Json} (hencoded : s.encodedDefault = .ok encoded) :
    ∃ encoded', t.encodedDefault = .ok encoded' ∧ Option.Rel Json.Same encoded encoded' := by
  have hdefault : Option.Rel Json.Same s.defaultValue t.defaultValue :=
    ((Metadata.same_iff hs.metadata ht.metadata).mp (metadata_of_same h)).2.1
  obtain ⟨hsome, hvalue⟩ := encodedDefault_eq_ok hencoded
  rcases either_of_rel hdefault with ⟨hv, hw⟩ | ⟨v, w, hv, hw, hvw⟩
  · obtain rfl : encoded = none := by simpa [hv] using hsome
    exact ⟨none, by rw [encodedDefault, hw], .none⟩
  · obtain ⟨u, rfl⟩ : ∃ u, encoded = some u := Option.isSome_iff_exists.mp (by rw [hsome, hv]; rfl)
    obtain ⟨v', hv', hu⟩ := hvalue u rfl
    rw [hv] at hv'
    obtain rfl : v = v' := Option.some.inj hv'
    obtain ⟨u', hu', hsame⟩ := (follows_of_same hs ht h).1 v w u (hs.metadata.1 v hv)
      (ht.metadata.1 w hw) hvw hu
    refine ⟨some u', ?_, .some hsame⟩
    rw [encodedDefault, hw]
    dsimp only
    rw [hu']

theorem agree_override :
    Table.Agree (fun _ => Json.Same) (overridePatch (s.annotated? overrideId))
      (overridePatch (t.annotated? overrideId)) := by
  have hannotations :=
    ((Metadata.same_iff hs.metadata ht.metadata).mp (metadata_of_same h)).2.2
  rw [annotated?, annotated?]
  rcases hannotations.either overrideId with ⟨hv, hw⟩ | ⟨v, w, hv, hw, hvw⟩
  · rw [hv, hw]
    exact .nil
  · have hvWell := hs.metadata.2.2 _ (Table.mem_of_find? hv)
    have hwWell := ht.metadata.2.2 _ (Table.mem_of_find? hw)
    rw [hv, hw]
    cases Json.alike_of_same hvw with
    | object xs ys =>
      obtain ⟨_, heq, hagree⟩ := (Json.same_object_iff hvWell hwWell).mp hvw
      obtain rfl := Json.object.inj heq
      exact hagree
    | _ => exact .nil

/-- What the metadata of equal structs adds, merged into schemas that agree. -/
theorem agreeBut_patch {f g : Fragment} {encoded encoded' : Option Json}
    (hfg : Fragment.AgreeBut (· ∈ requiredPlacesOfShape s.shape) f g)
    (hencoded : Option.Rel Json.Same encoded encoded') :
    Fragment.AgreeBut (· ∈ s.requiredPlaces) (Table.merge f (s.patch encoded))
      (Table.merge g (t.patch encoded')) := by
  have hmark : t.deprecation = s.deprecation :=
    ((Metadata.same_iff hs.metadata ht.metadata).mp (metadata_of_same h)).1.symm
  obtain ⟨hmarkDistinct, hmarkAgree⟩ :=
    agreeBut_mark (· ∈ requiredPlacesOfShape s.shape) s.deprecation
  obtain ⟨hdefaultDistinct, hdefaultAgree⟩ :=
    agreeBut_default (· ∈ requiredPlacesOfShape s.shape) hencoded
  have hdefaultDistinct' : Table.Distinct ((encoded'.map Fragment.defaultValue).getD []) := by
    cases encoded' <;> simp [Fragment.defaultValue, Table.Distinct]
  have hoverride : Fragment.AgreeBut (· ∈ s.requiredPlaces)
      (overridePatch (s.annotated? overrideId)) (overridePatch (t.annotated? overrideId)) :=
    (agree_override hs ht h).imp fun _ _ _ _ _ hvw => .same hvw
  rw [patch, patch, hmark, Table.merge_append, Table.merge_append, Table.merge_append,
    Table.merge_append]
  refine ((hfg.merge hmarkAgree hmarkDistinct hmarkDistinct fun _ _ _ _ h => h).merge hdefaultAgree
    hdefaultDistinct hdefaultDistinct' fun _ _ _ _ h => h).merge hoverride hs.distinct_override
    ht.distinct_override fun keyword v w hfresh hvw => hvw.mono fun place hplace => ?_
  -- What the override leaves alone is as the shape has it.
  refine mem_requiredPlaces.mpr ⟨hplace, ?_⟩
  rw [overrides, Bool.eq_false_iff, ne_eq, Table.contains_iff]
  exact hfresh

end

/-! ## All structs -/

/-- If the first struct is lowered, then so is the second, and to the same but for the order of the
names of required fields. -/
def Matches (limit : Nat) (s t : Struct) : Prop :=
  ∀ depth node, (s.lower limit depth).result = .ok node →
    ∃ node', (t.lower limit depth).result = .ok node' ∧ node.required = node'.required ∧
      Fragment.AgreeBut (· ∈ s.requiredPlaces) node.schema node'.schema

/-- The same of shapes. -/
def MatchesShape (limit : Nat) (shape shape' : Shape Struct) : Prop :=
  ∀ depth base, (lowerShape limit shape depth).result = .ok base →
    ∃ base', (lowerShape limit shape' depth).result = .ok base' ∧ base.required = base'.required ∧
      Fragment.AgreeBut (· ∈ requiredPlacesOfShape shape) base.schema base'.schema

variable {limit : Nat} {s t : Struct}

theorem Matches.of_shape (hs : s.WellFormed) (ht : t.WellFormed) (h : s.Same t)
    (hshape : MatchesShape limit s.shape t.shape) : s.Matches limit t := by
  intro depth node hnode
  obtain ⟨hdepth, base, hbase, encoded, hencoded, rfl⟩ := lower_eq_ok.mp hnode
  obtain ⟨base', hbase', hrequired, hschema⟩ := hshape _ base hbase
  obtain ⟨encoded', hencoded', hrel⟩ := encodedDefault_of_same hs ht h hencoded
  refine ⟨_, lower_eq_ok.mpr ⟨hdepth, base', hbase', encoded', hencoded', rfl⟩, ?_,
    agreeBut_patch hs ht h hschema hrel⟩
  cases hrel <;> simp [hrequired]

/-- What is known of both nodes. -/
theorem Matches.sameBut (h : s.Matches limit t) {depth : Nat} {node node' : Node}
    (hnode : (s.lower limit depth).result = .ok node)
    (hnode' : (t.lower limit depth).result = .ok node') :
    node.required = node'.required ∧
      Json.SameBut (· ∈ s.requiredPlaces) (.object node.schema) (.object node'.schema) := by
  obtain ⟨node₀, hnode₀, hrequired, hschema⟩ := h depth node hnode
  rw [hnode'] at hnode₀
  obtain rfl : node' = node₀ := Except.ok.inj hnode₀
  exact ⟨hrequired, .of_agree (distinct_lower hnode) (distinct_lower hnode') hschema⟩

namespace MatchesShape

theorem leaf {l l' : Leaf} (h : l.same l' = true) : MatchesShape limit (.leaf l) (.leaf l') := by
  intro depth base hbase
  obtain ⟨f, hf, rfl⟩ := lowerShape_leaf_eq_ok.mp hbase
  obtain ⟨g, hg, hfg⟩ := agreeBut_leaf h hf
  exact ⟨_, lowerShape_leaf_eq_ok.mpr ⟨g, hg, rfl⟩, rfl, hfg⟩

theorem wrapper (w : Wrapper) (h : s.Matches limit t) :
    MatchesShape limit (.wrapper w s) (.wrapper w t) := by
  intro depth base hbase
  obtain ⟨f, hf, rfl⟩ := lowerShape_wrapper_eq_ok.mp hbase
  obtain ⟨⟨g, _⟩, hg, rfl, hfg⟩ := h _ _ hf
  exact ⟨_, lowerShape_wrapper_eq_ok.mpr ⟨g, hg, rfl⟩, rfl,
    agreeBut_wrapper w (distinct_lower hf) (distinct_lower hg)
      (hfg.imp fun _ _ _ _ _ hvw => hvw.mono fun _ hplace => mem_requiredPlaces_wrapper hplace w)⟩

theorem series (k : Series) {items items' : List Struct}
    (h : List.Forall₂ (Matches limit) items items') :
    MatchesShape limit (.series k items) (.series k items') := by
  intro depth base hbase
  obtain ⟨fs, hfs, rfl⟩ := lowerShape_series_eq_ok.mp hbase
  obtain ⟨gs, hgs, hfgs⟩ := exists_following h hfs
    (Q := fun t g => (Struct.lower limit t depth).result = .ok ⟨g, true⟩) (S := fun _ _ => True)
    (by
      intro s t f hst hf
      obtain ⟨⟨g, _⟩, hg, rfl, -⟩ := hst _ _ hf
      exact ⟨g, hg, trivial⟩)
  refine ⟨_, lowerShape_series_eq_ok.mpr ⟨gs, hgs, rfl⟩, rfl,
    agreeBut_series k hfgs.length_eq fun i f g hf hg => ?_⟩
  obtain ⟨s, hsi, hf⟩ := exists_left_of_getElem? hfs hf
  obtain ⟨t, hti, hg⟩ := exists_left_of_getElem? hgs hg
  obtain ⟨s', hsi', hst⟩ := exists_left_of_getElem? h hti
  rw [hsi] at hsi'
  obtain rfl : s = s' := Option.some.inj hsi'
  exact (hst.sameBut hf hg).2.mono fun _ hplace => mem_requiredPlaces_series hplace k hsi

theorem object (policy : UnknownKeys) {fields fields' : List (String × Struct)}
    (hdistinct : Table.Distinct fields) (hdistinct' : Table.Distinct fields')
    (h : Table.Agree (fun _ => Matches limit) fields fields') :
    MatchesShape limit (.object fields policy) (.object fields' policy) := by
  intro depth base hbase
  obtain ⟨nodes, hnodes, rfl⟩ := lowerShape_object_eq_ok.mp hbase
  obtain ⟨nodes', hnodes', hagree⟩ := h.exists_following hdistinct' hnodes
    (Q := fun _ t node => (Struct.lower limit t depth).result = .ok node)
    (S := fun name (node node' : Node) => node.required = node'.required ∧ Json.SameBut
      (fun place => "properties" :: name :: place ∈ requiredPlacesOfShape (.object fields policy))
      (.object node.schema) (.object node'.schema)) (by
      intro name s t node hs _ hst hnode
      obtain ⟨node', hnode', -⟩ := hst _ _ hnode
      obtain ⟨hrequired, hschema⟩ := hst.sameBut hnode hnode'
      exact ⟨node', hnode', hrequired,
        hschema.mono fun _ hplace => mem_requiredPlaces_object hplace hs policy⟩)
  have hkeys : Table.keys nodes = Table.keys fields :=
    Table.keys_eq_of_forall₂ hnodes fun _ _ h => h.1
  have hkeys' : Table.keys nodes' = Table.keys fields' :=
    Table.keys_eq_of_forall₂ hnodes' fun _ _ h => h.1
  refine ⟨_, lowerShape_object_eq_ok.mpr ⟨nodes', hnodes', rfl⟩, rfl,
    agreeBut_object policy ?_ ?_ List.mem_cons_self hagree⟩
  · rwa [Table.Distinct, hkeys]
  · rwa [Table.Distinct, hkeys']

end MatchesShape

theorem matches_of_same (limit : Nat) (hs : s.WellFormed) (ht : t.WellFormed) (h : s.Same t) :
    s.Matches limit t := by
  induction s using Struct.induction generalizing t with
  | leaf l m =>
    obtain ⟨l', m', rfl, hl, -⟩ := same_leaf_iff.mp h
    exact .of_shape hs ht h (.leaf hl)
  | wrapper w inner m ih =>
    obtain ⟨inner', m', rfl, hinner, -⟩ := same_wrapper_iff.mp h
    exact .of_shape hs ht h (.wrapper w (ih hs.1 ht.1 hinner))
  | series k items m ih =>
    obtain ⟨items', m', rfl, hitems, -⟩ := same_series_iff.mp h
    have hsItems := wellFormedItems_iff.mp hs.1
    have htItems := wellFormedItems_iff.mp ht.1
    refine .of_shape hs ht h (.series k ((forall₂_members hitems).imp ?_))
    rintro s t ⟨hsmem, htmem, hst⟩
    exact ih s hsmem (hsItems s hsmem) (htItems t htmem) hst
  | object fields policy m ih =>
    obtain ⟨fields', m', rfl, hfields, -⟩ := (same_object_iff hs ht).mp h
    have hsFields := wellFormedFields_iff.mp hs.2.1
    have htFields := wellFormedFields_iff.mp ht.2.1
    refine .of_shape hs ht h (.object policy hs.1 ht.1 (hfields.imp fun name s t hs ht hst => ?_))
    have hmem := Table.mem_of_find? hs
    exact ih _ hmem (hsFields _ hmem) (htFields _ (Table.mem_of_find? ht)) hst

end Struct

/-- **Equality of structs is a congruence.** Floating point numbers are equal if they are the same or
both zero, and then a NaN is equal to itself; of JSON numbers, no whole one equals a floating point
one; and order matters neither for the entries of JSON objects nor for fields and annotations. So it
is an equivalence, and of equal structs, both are lowered or none is, equally required, and to schemas
that are equal but for the order of the names of required fields. -/
theorem equality_is_congruence :
    (∀ x y, (Literal.float x).same (.float y) = true ↔
      x = y ∨ ∃ a b, x = .finite a ∧ y = .finite b ∧ a.isZero = true ∧ b.isZero = true) ∧
    (∀ m n, (Json.number m).same (.number n) = true ↔
      m = n ∨ ∃ a b, m = .float a ∧ n = .float b ∧ a.isZero = true ∧ b.isZero = true) ∧
    (∀ entries entries', (Json.object entries).WellFormed → entries.Perm entries' →
      (Json.object entries).same (.object entries') = true) ∧
    (∀ fields fields' policy m annotations, (Struct.mk (.object fields policy) m).WellFormed →
      fields.Perm fields' → m.annotations.Perm annotations →
      (Struct.mk (.object fields policy) m).same
        (.mk (.object fields' policy) { m with annotations := annotations }) = true) ∧
    (∀ s : Struct, s.WellFormed → s.same s = true) ∧
    (∀ s t : Struct, s.WellFormed → t.WellFormed → s.same t = true → t.same s = true) ∧
    (∀ r s t : Struct, r.WellFormed → s.WellFormed → t.WellFormed →
      r.same s = true → s.same t = true → r.same t = true) ∧
    ∀ (s t : Struct) (config : Config), s.WellFormed → t.WellFormed → s.same t = true →
      (∃ e e', (s.node config).result = .error e ∧ (t.node config).result = .error e') ∨
      ∃ node node', (s.node config).result = .ok node ∧ (t.node config).result = .ok node' ∧
        node.required = node'.required ∧
        Json.SameBut (· ∈ s.requiredPlaces) (.object node.schema) (.object node'.schema) := by
  refine ⟨fun x y => Binary64.same_iff, fun m n => Number.same_iff,
    fun _ _ hentries hperm => Json.same_of_perm hentries hperm,
    fun _ _ _ _ _ hs hfields hannotations => Struct.same_of_perm hs hfields hannotations,
    fun s hs => Struct.same_refl hs, fun s t hs ht h => Struct.same_symm hs ht h,
    fun r s t hr hs ht hrs hst => Struct.same_trans hr hs ht hrs hst, fun s t config hs ht h => ?_⟩
  have hst := Struct.matches_of_same config.maxDepth hs ht h
  have hts := Struct.matches_of_same config.maxDepth ht hs (Struct.same_symm hs ht h)
  cases hnode : (s.node config).result with
  | ok node =>
    obtain ⟨node', hnode', -⟩ := hst 0 node hnode
    exact .inr ⟨node, node', rfl, hnode', hst.sameBut hnode hnode'⟩
  | error e =>
    cases hnode' : (t.node config).result with
    | ok node' =>
      obtain ⟨node, hok, -⟩ := hts 0 node' hnode'
      cases hnode.symm.trans hok
    | error e' => exact .inl ⟨e, e', rfl, rfl⟩

/-- A contact with places on a map, by default none but the origin. -/
def contact : Struct :=
  .object [("name", .string), ("age", .int),
    ("origin", (Struct.dict .int).withDefault (.object [("x", .int 0), ("y", .int 0)]))]

/-- The same with everything in another order. -/
def reorderedContact : Struct :=
  .object [("origin", (Struct.dict .int).withDefault (.object [("y", .int 0), ("x", .int 0)])),
    ("age", .int), ("name", .string)]

theorem equality_is_congruence_contact : contact.WellFormed ∧ reorderedContact.WellFormed ∧
    (Json.object [("x", .int 0), ("y", .int 0)]).same (.object [("y", .int 0), ("x", .int 0)]) = true ∧
    (Struct.object [("name", .string), ("age", .int)]).same
      (.object [("age", .int), ("name", .string)]) = true ∧
    contact.same contact = true ∧ contact.same reorderedContact = true ∧
    reorderedContact.same contact = true ∧ reorderedContact.same reorderedContact = true ∧
    contact.requiredPlaces = [["required"]] ∧
    ∃ node node', (contact.node {}).result = .ok node ∧
      (reorderedContact.node {}).result = .ok node' ∧ node.required = node'.required ∧
      Json.SameBut (· ∈ contact.requiredPlaces) (.object node.schema) (.object node'.schema) := by
  have hcontact : contact.WellFormed := by
    simp [contact, Struct.object, Table.ofList, Table.insert, Struct.WellFormed,
      Struct.WellFormedFields, Struct.withDefault, Struct.mapMetadata, Struct.int, Struct.string,
      Struct.dict, Struct.wrapper, Struct.leaf, Leaf.InRange, Metadata.WellFormed, Table.Distinct,
      Json.WellFormed, Json.WellFormedEntries, Json.int, Number.InRange, IsInt64]
  have hreordered : reorderedContact.WellFormed := by
    simp [reorderedContact, Struct.object, Table.ofList, Table.insert, Struct.WellFormed,
      Struct.WellFormedFields, Struct.withDefault, Struct.mapMetadata, Struct.int, Struct.string,
      Struct.dict, Struct.wrapper, Struct.leaf, Leaf.InRange, Metadata.WellFormed, Table.Distinct,
      Json.WellFormed, Json.WellFormedEntries, Json.int, Number.InRange, IsInt64]
  have horigin : (Json.object [("x", .int 0), ("y", .int 0)]).WellFormed := by
    simp [Json.WellFormed, Json.WellFormedEntries, Json.int, Number.InRange, IsInt64, Table.Distinct]
  have hfields : (Struct.object [("name", .string), ("age", .int)]).WellFormed := by
    simp [Struct.object, Table.ofList, Table.insert, Struct.WellFormed, Struct.WellFormedFields,
      Struct.int, Struct.string, Struct.leaf, Leaf.InRange, Metadata.WellFormed, Table.Distinct]
  obtain ⟨-, -, hentries, hperm, hrefl, hsymm, htrans, hnodes⟩ := equality_is_congruence
  have hsame : contact.same reorderedContact = true := rfl
  have hsame' := hsymm _ _ hcontact hreordered hsame
  rcases hnodes contact reorderedContact {} hcontact hreordered hsame with ⟨e, _, he, -⟩ | hnodes
  · cases he
  · exact ⟨hcontact, hreordered, hentries _ _ horigin (.swap ..),
      hperm _ _ _ _ _ hfields (.swap ..) (.refl _), hrefl _ hcontact, hsame, hsame',
      htrans _ _ _ hreordered hcontact hreordered hsame' hsame, rfl, hnodes⟩

end ShapeSchema
