import ShapeSchema.Proofs.Json.Values
import ShapeSchema.Proofs.Pairs
import ShapeSchema.Proofs.Schema.Lowering
import ShapeSchema.Proofs.Schema.Validity

/-!
# What lowered structs admit

The fragment of a leaf admits what the leaf admits. Where no override interferes, the metadata of a
struct adds silent keywords only, so that a node admits what the fragment of its shape admits.
-/

namespace ShapeSchema

/-! ## Leaves -/

theorem Number.toInt64?_eq_some {n : Number} {i : Int} :
    n.toInt64? = some i ↔ n = .int i ∧ IsInt64 i := by
  cases n with
  | int j =>
    rw [toInt64?]
    split
    · rename_i h
      simp only [Option.some.injEq, Number.int.injEq]
      exact ⟨fun hj => ⟨hj, hj ▸ h⟩, And.left⟩
    · rename_i h
      simp only [reduceCtorEq, Number.int.injEq, false_iff]
      intro h
      obtain ⟨rfl, hj⟩ := h
      exact h hj
  | float x => simp [toInt64?]

theorem Double.numEq_self (x : Double) : x.numEq x = true := by simp [numEq]

/-- Read exactly, the fragment of a leaf admits what the leaf admits. -/
theorem Leaf.valid_exact {l : Leaf} {f : Fragment} (hf : l.fragment? = some f) {v : Json} :
    Reading.exact.Valid v f ↔ l.admits v = true := by
  cases l with
  | literal value =>
    cases value with
    | null =>
      obtain rfl := Option.some.inj hf
      rw [Reading.valid_null]
      cases v <;> simp [Leaf.admits, Literal.admits, Json.isNull]
    | emptyOption => cases hf
    | nan => cases hf
    | string s =>
      obtain rfl := Option.some.inj hf
      rw [Reading.valid_stringConst]
      cases v <;> simp [Leaf.admits, Literal.admits, @eq_comm _ s]
    | int i =>
      obtain rfl := Option.some.inj hf
      rw [Reading.valid_integerConst]
      cases v with
      | number n =>
        simp only [Json.number.injEq, exists_eq_left', Leaf.admits, Literal.admits, beq_iff_eq,
          Number.toInt64?_eq_some]
        cases n with
        | int j =>
          simp [Reading.exact, Option.isSome_iff_exists, Number.toInt64?_eq_some]
          constructor
          · intro h
            obtain ⟨hj, rfl⟩ := h
            exact ⟨rfl, hj⟩
          · intro h
            obtain ⟨rfl, hj⟩ := h
            exact ⟨hj, rfl⟩
        | float y => simp [Reading.exact, Number.toInt64?]
      | _ => simp [Leaf.admits, Literal.admits]
    | float x =>
      cases x with
      | finite x =>
        obtain rfl := Option.some.inj hf
        rw [Reading.valid_numberConst]
        cases v <;> simp [Leaf.admits, Literal.admits, Reading.exact, Binary64.numEq, Number.toDouble]
      | _ => cases hf
    | bool b =>
      obtain rfl := Option.some.inj hf
      rw [Reading.valid_booleanConst]
      cases v <;> simp [Leaf.admits, Literal.admits, @eq_comm _ b]
  | never =>
    obtain rfl := Option.some.inj hf
    simpa [Leaf.admits] using Reading.not_valid_never v
  | unknown =>
    obtain rfl := Option.some.inj hf
    simpa [Leaf.admits] using Reading.valid_empty v
  | date => cases hf
  | _ =>
    obtain rfl := Option.some.inj hf
    refine Reading.valid_ofType.trans ?_
    cases v <;> simp [Leaf.admits, Reading.hasType, Reading.exact]

theorem Reading.doubles_whole {n : Number} (h : exact.whole n = true) : doubles.whole n = true := by
  cases n with
  | int i => rfl
  | float x => simp [exact, Number.toInt64?] at h

theorem Reading.doubles_constant {c n : Number} (h : exact.constant c n = true) :
    doubles.constant c n = true := by
  cases c with
  | int i =>
    cases n with
    | int j =>
      obtain rfl : i = j := by simpa [exact] using h
      exact Double.numEq_self _
    | float y => exact h
  | float x => exact h

theorem Reading.doubles_hasType {name : String} {v : Json} (h : exact.hasType name v = true) :
    doubles.hasType name v = true := by
  cases v with
  | number n =>
    simp only [hasType, Bool.or_eq_true, Bool.and_eq_true] at h ⊢
    exact h.imp id fun hinteger => ⟨hinteger.1, doubles_whole hinteger.2⟩
  | _ => exact h

/-- Read with doubles, the fragment of a leaf still admits what the leaf admits. -/
theorem Leaf.valid_doubles {l : Leaf} {f : Fragment} (hf : l.fragment? = some f) {v : Json}
    (hv : l.admits v = true) : Reading.doubles.Valid v f := by
  have hexact : Reading.exact.Valid v f := (valid_exact hf).mpr hv
  cases l with
  | literal value =>
    cases value with
    | null =>
      obtain rfl := Option.some.inj hf
      exact Reading.valid_null.mpr (Reading.valid_null.mp hexact)
    | emptyOption => cases hf
    | nan => cases hf
    | string s =>
      obtain rfl := Option.some.inj hf
      exact Reading.valid_stringConst.mpr (Reading.valid_stringConst.mp hexact)
    | int i =>
      obtain rfl := Option.some.inj hf
      obtain ⟨n, rfl, hwhole, hconstant⟩ := Reading.valid_integerConst.mp hexact
      exact Reading.valid_integerConst.mpr
        ⟨n, rfl, Reading.doubles_whole hwhole, Reading.doubles_constant hconstant⟩
    | float x =>
      cases x with
      | finite x =>
        obtain rfl := Option.some.inj hf
        obtain ⟨n, rfl, hconstant⟩ := Reading.valid_numberConst.mp hexact
        exact Reading.valid_numberConst.mpr ⟨n, rfl, Reading.doubles_constant hconstant⟩
      | _ => cases hf
    | bool b =>
      obtain rfl := Option.some.inj hf
      exact Reading.valid_booleanConst.mpr (Reading.valid_booleanConst.mp hexact)
  | never => exact absurd hv (by simp [Leaf.admits])
  | unknown =>
    obtain rfl := Option.some.inj hf
    exact Reading.valid_empty v
  | date => cases hf
  | _ =>
    obtain rfl := Option.some.inj hf
    exact Reading.valid_ofType.mpr (Reading.doubles_hasType (Reading.valid_ofType.mp hexact))

/-! ## Metadata -/

namespace Struct

/-- No node of the struct has an override that is an object; other overrides are ignored. -/
def Unpatched (s : Struct) : Prop :=
  ∀ t, Within t s → ∀ patch, t.annotated? overrideId ≠ some (.object patch)

theorem Unpatched.part {s part : Struct} (h : s.Unpatched) (mem : part ∈ s.shape.parts) :
    part.Unpatched :=
  fun t ht => h t (ht.trans (.of_part mem))

theorem unpatched_mk {shape : Shape Struct} {m : Metadata} :
    (Struct.mk shape m).Unpatched ↔
      (∀ patch, Table.find? overrideId m.annotations ≠ some (.object patch)) ∧
        ∀ part ∈ shape.parts, part.Unpatched :=
  forall_within

theorem Unpatched.overridePatch_eq {s : Struct} (h : s.Unpatched) :
    overridePatch (s.annotated? overrideId) = [] := by
  cases hoverride : s.annotated? overrideId with
  | none => rfl
  | some value =>
    cases value with
    | object patch => exact absurd hoverride (h s (.refl s) patch)
    | _ => rfl

theorem Unpatched.patch_eq {s : Struct} (h : s.Unpatched) (encoded : Option Json) :
    s.patch encoded = (s.deprecation.map Fragment.ofDeprecation).getD [] ++
      (encoded.map Fragment.defaultValue).getD [] := by
  rw [patch, h.overridePatch_eq, List.append_nil]

/-- Without an override, the metadata of a struct adds silent keywords only. -/
theorem keys_patch {s : Struct} (h : overridePatch (s.annotated? overrideId) = [])
    (encoded : Option Json) :
    ∀ keyword ∈ Table.keys (s.patch encoded), keyword ∈ Reading.silentKeywords := by
  rw [patch, h, List.append_nil, Table.keys, List.map_append]
  refine List.forall_mem_append.mpr ⟨?_, ?_⟩
  · rcases s.deprecation with _ | _ | message <;>
      simp [Fragment.ofDeprecation, Fragment.deprecated, Fragment.deprecatedWithMessage,
        Reading.silentKeywords]
  · cases encoded <;> simp [Fragment.defaultValue, Reading.silentKeywords]

theorem Unpatched.keys_patch {s : Struct} (h : s.Unpatched) (encoded : Option Json) :
    ∀ keyword ∈ Table.keys (s.patch encoded), keyword ∈ Reading.silentKeywords :=
  Struct.keys_patch h.overridePatch_eq encoded

/-- The node of a struct admits what the fragment of its shape admits. -/
theorem Unpatched.lower_eq_ok {s : Struct} (h : s.Unpatched) {limit depth : Nat} {node : Node}
    (hnode : (s.lower limit depth).result = .ok node) :
    ∃ base, (lowerShape limit s.shape (depth + 1)).result = .ok base ∧
      ∀ {R : Reading} {v : Json}, R.Valid v node.schema ↔ R.Valid v base.schema := by
  obtain ⟨-, base, hbase, encoded, -, rfl⟩ := Struct.lower_eq_ok.mp hnode
  exact ⟨base, hbase, Reading.valid_merge (h.keys_patch encoded)⟩

end Struct

/-! ## Objects -/

variable {R : Reading}

theorem Reading.valid_objectFragment {policy : UnknownKeys} {nodes : List (String × Node)}
    (hdistinct : Table.Distinct nodes) {v : Json} :
    R.Valid v (objectFragment policy nodes) ↔
      ∃ entries, v = .object entries ∧
        (∀ field ∈ nodes, ∀ entry ∈ entries, entry.1 = field.1 → R.Valid entry.2 field.2.schema) ∧
        (∀ entry ∈ entries, entry.1 ∈ Table.keys nodes ∨ policy = .passthrough) ∧
        ∀ field ∈ nodes, field.2.required = true → field.1 ∈ Table.keys entries := by
  have hproperties := hdistinct.map fun node : Node => Json.object node.schema
  rw [objectFragment, hproperties.ofList_eq, valid_record,
    Table.keys_map fun node : Node => Json.object node.schema]
  simp only [List.forall_mem_map, List.mem_filter, beq_iff_eq, and_imp]

/-! ## Documents -/

/-- The four forms of fragments of leaves. -/
theorem Leaf.fragment_form {l : Leaf} {f : Fragment} (hf : l.fragment? = some f) :
    f = .never ∨ f = .empty ∨ (∃ name, f = .ofType name) ∨
      ∃ name value, f = [("type", .string name), ("const", value)] := by
  cases l with
  | never => exact .inl (Option.some.inj hf).symm
  | unknown => exact .inr (.inl (Option.some.inj hf).symm)
  | date => cases hf
  | literal value =>
    cases value with
    | null => exact .inr (.inr (.inl ⟨_, (Option.some.inj hf).symm⟩))
    | emptyOption => cases hf
    | nan => cases hf
    | float x =>
      cases x with
      | finite x => exact .inr (.inr (.inr ⟨_, _, (Option.some.inj hf).symm⟩))
      | _ => cases hf
    | _ => exact .inr (.inr (.inr ⟨_, _, (Option.some.inj hf).symm⟩))
  | _ => exact .inr (.inr (.inl ⟨_, (Option.some.inj hf).symm⟩))

theorem Leaf.distinct_fragment {l : Leaf} {f : Fragment} (hf : l.fragment? = some f) :
    Table.Distinct f := by
  rcases fragment_form hf with rfl | rfl | ⟨name, rfl⟩ | ⟨name, value, rfl⟩ <;>
    simp [Table.Distinct, Fragment.never, Fragment.empty, Fragment.ofType]

/-- No keyword comes twice in the schema of a node. -/
theorem Struct.distinct_lower {s : Struct} {limit depth : Nat} {node : Node}
    (h : (s.lower limit depth).result = .ok node) : Table.Distinct node.schema := by
  induction s using Struct.induction generalizing depth node with
  | leaf l m =>
    obtain ⟨-, base, hbase, encoded, -, rfl⟩ := Struct.lower_eq_ok.mp h
    obtain ⟨f, hf, rfl⟩ := lowerShape_leaf_eq_ok.mp hbase
    exact Table.distinct_merge (Leaf.distinct_fragment hf)
  | wrapper w inner m ih =>
    obtain ⟨-, base, hbase, encoded, -, rfl⟩ := Struct.lower_eq_ok.mp h
    obtain ⟨f, hinner, rfl⟩ := lowerShape_wrapper_eq_ok.mp hbase
    refine Table.distinct_merge ?_
    cases w with
    | option =>
      have hf : Table.Distinct f := ih hinner
      exact hf
    | _ => simp [Wrapper.fragment, Table.Distinct, Fragment.nullable, Fragment.anyOf,
        Fragment.array, Fragment.dict]
  | series k items m ih =>
    obtain ⟨-, base, hbase, encoded, -, rfl⟩ := Struct.lower_eq_ok.mp h
    obtain ⟨fs, -, rfl⟩ := lowerShape_series_eq_ok.mp hbase
    refine Table.distinct_merge ?_
    cases k <;> simp [Series.fragment, Table.Distinct, Fragment.tuple, Fragment.anyOf]
  | object fields policy m ih =>
    obtain ⟨-, base, hbase, encoded, -, rfl⟩ := Struct.lower_eq_ok.mp h
    obtain ⟨nodes, -, rfl⟩ := lowerShape_object_eq_ok.mp hbase
    refine Table.distinct_merge ?_
    simp only [objectFragment, Fragment.record]
    split <;> simp [Table.Distinct]

/-- Nor does one in the override of a well-formed struct. -/
theorem Struct.WellFormed.distinct_override {s : Struct} (hs : s.WellFormed) :
    Table.Distinct (overridePatch (s.annotated? overrideId)) := by
  rw [overridePatch.eq_def]
  split
  · rename_i patch hpatch
    have hwell := hs.metadata.2.2 _ (Table.mem_of_find? hpatch)
    exact (Json.wellFormed_object.mp hwell).1
  · exact List.nodup_nil

/-- A document admits what its root admits. -/
theorem Reading.admits_document {root : Fragment} (hroot : Table.Distinct root) {v : Json} :
    R.Valid v (Fragment.document root) ↔ R.Valid v root := by
  have hdialect : ∀ keyword ∈ Table.keys [("$schema", Json.string Fragment.dialect)],
      keyword ∈ silentKeywords := by
    simp [silentKeywords]
  -- Storing one entry is merging a patch of one entry.
  show R.Valid v (Table.merge (Table.merge _ root) [("$schema", .string Fragment.dialect)]) ↔ _
  rw [valid_merge hdialect, valid_merge_left hdialect hroot]

/-- Apart from its log, a conversion lowers the struct and looks at whether it is required. -/
theorem Struct.documentWith_eq (config : Config) (s : Struct) :
    s.documentWith config =
      (s.lower config.maxDepth 0).result >>= fun node => (documentOf node).result := by
  rw [documentWith, convert, logFailure]
  split <;> simp_all [Struct.node]

theorem Struct.result_documentOf (node : Node) :
    (documentOf node).result =
      if node.required then .ok (.object (Fragment.document node.schema))
      else .error (.here .optionalRoot) := by
  rw [documentOf]
  cases node.required <;> rfl

/-- A struct whose conversion gives a document is lowered to a required node, and the document is
that of its schema. -/
theorem Struct.documentWith_eq_ok {config : Config} {s : Struct} {doc : Json} :
    s.documentWith config = .ok doc ↔
      ∃ f, (s.lower config.maxDepth 0).result = .ok ⟨f, true⟩ ∧ doc = .object (Fragment.document f) := by
  rw [documentWith_eq, bind_eq_ok]
  constructor
  · intro h
    obtain ⟨⟨f, required⟩, hnode, hdoc⟩ := h
    cases required with
    | true => exact ⟨f, hnode, by simpa [result_documentOf, eq_comm] using hdoc⟩
    | false => simp [result_documentOf] at hdoc
  · intro h
    obtain ⟨f, hnode, rfl⟩ := h
    exact ⟨⟨f, true⟩, hnode, rfl⟩

end ShapeSchema
