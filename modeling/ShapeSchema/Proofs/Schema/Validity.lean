import Mathlib.Data.List.Forall2
import ShapeSchema.Proofs.Table
import ShapeSchema.Schema.Fragment

/-!
# Validity under a schema

The meaning of the keywords that fragments use, in the dialect of the documents (draft-07). Where
the dialect leaves a choice, which numbers count as whole and when two numbers are one constant, the
choice is a `Reading`. All other keywords constrain nothing.
-/

namespace ShapeSchema

/-- How numbers are looked at when a value is held against a schema. -/
structure Reading where
  /-- Which numbers are of the type `integer`. -/
  whole : Number → Bool
  /-- Whether the number on the right is the constant on the left. -/
  constant : Number → Number → Bool

namespace Reading

/-- Numbers are doubles: whole are those without a fractional part, and a number is the constant to
which it is equal as a double. -/
def doubles : Reading where
  whole
    | .int _ => true
    | .float x => x.units % (1 <<< 1074) == 0
  constant c n := c.toDouble.numEq n.toDouble

/-- Whole numbers are signed 64-bit integers and are equal only to themselves; a constant with a
point is compared as a double. -/
def exact : Reading where
  whole n := n.toInt64?.isSome
  constant
    | .int i, .int j => i == j
    | c, n => c.toDouble.numEq n.toDouble

/-- Whether the value is of the named type. -/
def hasType (R : Reading) (name : String) : Json → Bool
  | .null => name == "null"
  | .bool _ => name == "boolean"
  | .number n => name == "number" || (name == "integer" && R.whole n)
  | .string _ => name == "string"
  | .array _ => name == "array"
  | .object _ => name == "object"

/-- Whether the value on the right is the constant on the left. -/
def isConstant (R : Reading) : Json → Json → Bool
  | .number c, .number n => R.constant c n
  | c, v => c.same v

/-- The keywords that speak about the value itself; a keyword with a value of another form, and any
other keyword, constrains nothing. -/
def asserts (R : Reading) (keyword : String) (argument v : Json) : Bool :=
  match keyword, argument, v with
  | "type", .string name, v => R.hasType name v
  | "const", c, v => R.isConstant c v
  | "minItems", .number (.int n), .array vs => decide (n ≤ vs.length)
  | "maxItems", .number (.int n), .array vs => decide (vs.length ≤ n)
  | "required", .array names, .object entries => names.all fun
      | .string name => Table.contains name entries
      | _ => true
  | _, _, _ => true

end Reading

/-- The items of an array; other values have none. -/
def Json.items : Json → List Json
  | .array vs => vs
  | _ => []

/-- Whether the value is an array. -/
def Json.isArray : Json → Bool
  | .array _ => true
  | _ => false

/-- The entries of an object; other values have none. -/
def Json.entries : Json → List (String × Json)
  | .object entries => entries
  | _ => []

/-- Whether the schema has a property of this name. -/
def Fragment.declares (schema : Fragment) (name : String) : Bool :=
  match Table.find? "properties" schema with
  | some (.object properties) => Table.contains name properties
  | _ => false

namespace Reading

mutual

/-- Whether the value is valid under the schema. -/
def admits (R : Reading) : Json → Json → Bool
  | .bool b, _ => b
  | .object schema, v => admitsKeywords R (Fragment.declares schema) schema v
  | _, _ => false
termination_by structural schema => schema

/-- Whether the value meets all these keywords of a schema that declares these properties. -/
def admitsKeywords (R : Reading) (declared : String → Bool) : List (String × Json) → Json → Bool
  | [], _ => true
  | (keyword, argument) :: rest, v =>
    (match keyword with
      | "not" => !(admits R argument v)
      | "anyOf" => admitsAnyOf R argument v
      | "items" =>
        if argument.isArray then admitsPositions R argument v.items
        else v.items.all fun x => admits R argument x
      | "properties" => admitsProperties R argument v.entries
      | "additionalProperties" =>
        v.entries.all fun entry => declared entry.1 || admits R argument entry.2
      | keyword => R.asserts keyword argument v) && admitsKeywords R declared rest v
termination_by structural keywords => keywords

/-- Whether the value is valid under one of the schemas in the array. -/
def admitsAnyOf (R : Reading) : Json → Json → Bool
  | .array fs, v => admitsSome R fs v
  | _, _ => true
termination_by structural argument => argument

/-- Whether the value is valid under one of the schemas. -/
def admitsSome (R : Reading) : List Json → Json → Bool
  | [], _ => false
  | f :: rest, v => admits R f v || admitsSome R rest v
termination_by structural fs => fs

/-- Whether each value is valid under the schema at its position in the array. -/
def admitsPositions (R : Reading) : Json → List Json → Bool
  | .array fs, vs => admitsEach R fs vs
  | _, _ => true
termination_by structural argument => argument

/-- Whether each value is valid under the schema at its position, if there is one. -/
def admitsEach (R : Reading) : List Json → List Json → Bool
  | f :: rest, v :: vs => admits R f v && admitsEach R rest vs
  | _, _ => true
termination_by structural fs => fs

/-- Whether each entry is valid under the schema of its name in the object. -/
def admitsProperties (R : Reading) : Json → List (String × Json) → Bool
  | .object properties, entries => admitsNamed R properties entries
  | _, _ => true
termination_by structural argument => argument

/-- Whether each entry is valid under the schema of its name, if there is one. -/
def admitsNamed (R : Reading) : List (String × Json) → List (String × Json) → Bool
  | [], _ => true
  | (name, f) :: rest, entries =>
    (entries.all fun entry => entry.1 != name || admits R f entry.2) && admitsNamed R rest entries
termination_by structural properties => properties

end

/-- The value is valid under the fragment. -/
abbrev Valid (R : Reading) (v : Json) (schema : Fragment) : Prop := R.admits (.object schema) v = true

variable {R : Reading}

/-! ## Keywords one by one -/

/-- Whether the value meets one keyword of a schema that declares these properties. -/
def meets (R : Reading) (declared : String → Bool) (entry : String × Json) (v : Json) : Bool :=
  match entry.1 with
  | "not" => !(admits R entry.2 v)
  | "anyOf" => admitsAnyOf R entry.2 v
  | "items" =>
    if entry.2.isArray then admitsPositions R entry.2 v.items
    else v.items.all fun x => admits R entry.2 x
  | "properties" => admitsProperties R entry.2 v.entries
  | "additionalProperties" =>
    v.entries.all fun e => declared e.1 || admits R entry.2 e.2
  | keyword => R.asserts keyword entry.2 v

theorem admits_bool (b : Bool) (v : Json) : R.admits (.bool b) v = b := rfl

theorem admitsKeywords_nil (declared : String → Bool) (v : Json) :
    R.admitsKeywords declared [] v = true := rfl

theorem admitsKeywords_cons (declared : String → Bool) (entry : String × Json)
    (rest : List (String × Json)) (v : Json) :
    R.admitsKeywords declared (entry :: rest) v =
      (R.meets declared entry v && R.admitsKeywords declared rest v) := rfl

theorem admitsKeywords_iff {declared : String → Bool} {keywords : List (String × Json)} {v : Json} :
    R.admitsKeywords declared keywords v = true ↔
      ∀ entry ∈ keywords, R.meets declared entry v = true := by
  induction keywords with
  | nil => simp [admitsKeywords_nil]
  | cons entry rest ih =>
    rw [List.forall_mem_cons, ← ih, admitsKeywords_cons, Bool.and_eq_true]

/-- A value is valid under a schema if it meets each of its keywords. -/
theorem valid_iff {schema : Fragment} {v : Json} :
    R.Valid v schema ↔ ∀ entry ∈ schema, R.meets schema.declares entry v = true :=
  admitsKeywords_iff

/-! ## Lists of schemas -/

theorem admitsSome_cons (f : Json) (rest : List Json) (v : Json) :
    R.admitsSome (f :: rest) v = (R.admits f v || R.admitsSome rest v) := rfl

theorem admitsSome_iff {fs : List Json} {v : Json} :
    R.admitsSome fs v = true ↔ ∃ f ∈ fs, R.admits f v = true := by
  induction fs with
  | nil =>
    have hnone : R.admitsSome [] v = false := rfl
    simp [hnone]
  | cons f rest ih => simp [admitsSome_cons, ih]

theorem admitsEach_cons (f v : Json) (rest vs : List Json) :
    R.admitsEach (f :: rest) (v :: vs) = (R.admits f v && R.admitsEach rest vs) := rfl

theorem admitsEach_iff {fs vs : List Json} (h : fs.length = vs.length) :
    R.admitsEach fs vs = true ↔ List.Forall₂ (fun f v => R.admits f v = true) fs vs := by
  induction fs generalizing vs with
  | nil =>
    obtain rfl : vs = [] := List.eq_nil_of_length_eq_zero h.symm
    exact iff_of_true rfl .nil
  | cons f rest ih =>
    cases vs with
    | nil => simp at h
    | cons v vs => simp [admitsEach_cons, ih (by simpa using h)]

theorem admitsNamed_cons (name : String) (f : Json) (rest entries : List (String × Json)) :
    R.admitsNamed ((name, f) :: rest) entries =
      ((entries.all fun entry => entry.1 != name || R.admits f entry.2) &&
        R.admitsNamed rest entries) := rfl

theorem admitsNamed_iff {properties entries : List (String × Json)} :
    R.admitsNamed properties entries = true ↔
      ∀ property ∈ properties, ∀ entry ∈ entries, entry.1 = property.1 →
        R.admits property.2 entry.2 = true := by
  induction properties with
  | nil => exact iff_of_true rfl (by simp)
  | cons property rest ih =>
    obtain ⟨name, f⟩ := property
    rw [List.forall_mem_cons, admitsNamed_cons, Bool.and_eq_true, ih, List.all_eq_true]
    refine and_congr_left fun _ => forall₂_congr fun entry _ => ?_
    by_cases hname : entry.1 = name <;> simp [hname]

/-! ## What a keyword says -/

section

variable {declared : String → Bool} {v : Json}

theorem hasType_null : R.hasType "null" v = true ↔ v = .null := by
  cases v <;> simp [hasType]

theorem hasType_array : R.hasType "array" v = true ↔ ∃ vs, v = .array vs := by
  cases v <;> simp [hasType]

theorem hasType_object : R.hasType "object" v = true ↔ ∃ entries, v = .object entries := by
  cases v <;> simp [hasType]

theorem meets_type {name : String} :
    R.meets declared ("type", .string name) v = true ↔ R.hasType name v = true := Iff.rfl

theorem meets_const {c : Json} :
    R.meets declared ("const", c) v = true ↔ R.isConstant c v = true := Iff.rfl

theorem meets_anyOf {variants : List Fragment} :
    R.meets declared ("anyOf", Fragment.list variants) v = true ↔ ∃ f ∈ variants, R.Valid v f := by
  have hanyOf : R.meets declared ("anyOf", Fragment.list variants) v =
      R.admitsSome (variants.map .object) v := rfl
  rw [hanyOf, admitsSome_iff]
  simp [Valid]

theorem meets_items {inner : Fragment} :
    R.meets declared ("items", .object inner) v = true ↔ ∀ x ∈ v.items, R.Valid x inner :=
  List.all_eq_true

theorem meets_items_list {fs : List Fragment} :
    R.meets declared ("items", Fragment.list fs) v = true ↔
      R.admitsEach (fs.map .object) v.items = true := Iff.rfl

theorem meets_minItems {n : Nat} {vs : List Json} :
    R.meets declared ("minItems", .nat n) (.array vs) = true ↔ n ≤ vs.length := by
  have hmin : R.meets declared ("minItems", .nat n) (.array vs) =
      decide ((n : Int) ≤ vs.length) := rfl
  rw [hmin, decide_eq_true_iff, Int.ofNat_le]

theorem meets_maxItems {n : Nat} {vs : List Json} :
    R.meets declared ("maxItems", .nat n) (.array vs) = true ↔ vs.length ≤ n := by
  have hmax : R.meets declared ("maxItems", .nat n) (.array vs) =
      decide ((vs.length : Int) ≤ n) := rfl
  rw [hmax, decide_eq_true_iff, Int.ofNat_le]

theorem meets_properties {properties : Fragment} :
    R.meets declared ("properties", .object properties) v = true ↔
      ∀ property ∈ properties, ∀ entry ∈ v.entries, entry.1 = property.1 →
        R.admits property.2 entry.2 = true :=
  admitsNamed_iff

theorem meets_additional {f : Json} :
    R.meets declared ("additionalProperties", f) v = true ↔
      ∀ entry ∈ v.entries, declared entry.1 = true ∨ R.admits f entry.2 = true := by
  have hall : R.meets declared ("additionalProperties", f) v =
      v.entries.all fun entry => declared entry.1 || R.admits f entry.2 := rfl
  simp only [hall, List.all_eq_true, Bool.or_eq_true]

theorem meets_required {names : List String} {entries : List (String × Json)} :
    R.meets declared ("required", .array (names.map .string)) (.object entries) = true ↔
      ∀ name ∈ names, name ∈ Table.keys entries := by
  have hall : R.meets declared ("required", .array (names.map .string)) (.object entries) =
      (names.map Json.string).all fun
        | .string name => Table.contains name entries
        | _ => true := rfl
  rw [hall, List.all_map, List.all_eq_true]
  exact forall₂_congr fun name _ => Table.contains_iff

end

/-! ## What the fragments admit -/

theorem valid_ofType {name : String} {v : Json} :
    R.Valid v (.ofType name) ↔ R.hasType name v = true := by
  simp [valid_iff, Fragment.ofType, meets_type]

theorem valid_empty (v : Json) : R.Valid v .empty := by
  simp [valid_iff, Fragment.empty]

theorem not_valid_never (v : Json) : ¬R.Valid v .never := by
  have hnever : R.admits (.object Fragment.never) v = false := rfl
  simp [Valid, hnever]

theorem valid_null {v : Json} : R.Valid v .null ↔ v = .null := by
  rw [Fragment.null, valid_ofType, hasType_null]

theorem valid_anyOf {variants : List Fragment} {v : Json} :
    R.Valid v (.anyOf variants) ↔ ∃ f ∈ variants, R.Valid v f := by
  rw [valid_iff]
  simp [Fragment.anyOf, meets_anyOf]

theorem valid_nullable {inner : Fragment} {v : Json} :
    R.Valid v (.nullable inner) ↔ R.Valid v inner ∨ v = .null := by
  rw [Fragment.nullable, valid_anyOf]
  simp [valid_null]

theorem valid_array {inner : Fragment} {v : Json} :
    R.Valid v (.array inner) ↔ ∃ vs, v = .array vs ∧ ∀ x ∈ vs, R.Valid x inner := by
  rw [valid_iff]
  simp only [Fragment.array, List.forall_mem_cons, meets_items, meets_type, hasType_array]
  constructor
  · intro h
    obtain ⟨hitems, ⟨vs, rfl⟩, -⟩ := h
    exact ⟨vs, rfl, hitems⟩
  · intro h
    obtain ⟨vs, rfl, hitems⟩ := h
    exact ⟨hitems, ⟨vs, rfl⟩, by simp⟩

theorem valid_tuple {fs : List Fragment} {v : Json} :
    R.Valid v (.tuple fs) ↔ ∃ vs, v = .array vs ∧ List.Forall₂ (fun f x => R.Valid x f) fs vs := by
  rw [valid_iff]
  simp only [Fragment.tuple, List.forall_mem_cons, meets_items_list, meets_type, hasType_array]
  constructor
  · intro h
    obtain ⟨hitems, ⟨vs, rfl⟩, hmin, hmax, -⟩ := h
    have hlen : (fs.map Json.object).length = vs.length := by
      rw [List.length_map]
      exact Nat.le_antisymm (meets_minItems.mp hmin) (meets_maxItems.mp hmax)
    exact ⟨vs, rfl, List.forall₂_map_left_iff.mp ((admitsEach_iff hlen).mp hitems)⟩
  · intro h
    obtain ⟨vs, rfl, hitems⟩ := h
    have hlen : fs.length = vs.length := hitems.length_eq
    refine ⟨?_, ⟨vs, rfl⟩, meets_minItems.mpr (Nat.le_of_eq hlen),
      meets_maxItems.mpr (Nat.le_of_eq hlen.symm), by simp⟩
    exact (admitsEach_iff ((List.length_map _).trans hlen)).mpr
      (List.forall₂_map_left_iff.mpr hitems)

theorem valid_dict {inner : Fragment} {v : Json} :
    R.Valid v (.dict inner) ↔
      ∃ entries, v = .object entries ∧ ∀ entry ∈ entries, R.Valid entry.2 inner := by
  have hdecl : (Fragment.dict inner).declares = fun _ => false := rfl
  rw [valid_iff, hdecl]
  simp only [Fragment.dict, List.forall_mem_cons, meets_type, hasType_object, meets_additional]
  constructor
  · intro h
    obtain ⟨⟨entries, rfl⟩, hvalues, -⟩ := h
    exact ⟨entries, rfl, fun entry hentry => (hvalues entry hentry).resolve_left (by simp)⟩
  · intro h
    obtain ⟨entries, rfl, hvalues⟩ := h
    exact ⟨⟨entries, rfl⟩, fun entry hentry => .inr (hvalues entry hentry), by simp⟩

theorem valid_record {properties : Fragment} {additional : Bool} {required : List String}
    {v : Json} :
    R.Valid v (.record properties additional required) ↔
      ∃ entries, v = .object entries ∧
        (∀ property ∈ properties, ∀ entry ∈ entries, entry.1 = property.1 →
          R.admits property.2 entry.2 = true) ∧
        (∀ entry ∈ entries, entry.1 ∈ Table.keys properties ∨ additional = true) ∧
        ∀ name ∈ required, name ∈ Table.keys entries := by
  have hdecl : ∀ name, (Fragment.record properties additional required).declares name = true ↔
      name ∈ Table.keys properties := fun _ => Table.contains_iff
  rw [valid_iff]
  simp only [Fragment.record, List.cons_append, List.nil_append, List.forall_mem_cons] at hdecl ⊢
  simp only [meets_type, hasType_object, meets_properties, meets_additional, hdecl, admits_bool]
  constructor
  · intro h
    obtain ⟨⟨entries, rfl⟩, hproperties, hadditional, hrequired⟩ := h
    refine ⟨entries, rfl, hproperties, hadditional, ?_⟩
    cases required with
    | nil => simp
    | cons name rest => exact meets_required.mp (hrequired _ (by simp))
  · intro h
    obtain ⟨entries, rfl, hproperties, hadditional, hrequired⟩ := h
    refine ⟨⟨entries, rfl⟩, hproperties, hadditional, ?_⟩
    cases required with
    | nil => simp
    | cons name rest =>
      simp only [List.isEmpty_cons, Bool.false_eq_true, if_false, List.forall_mem_singleton]
      exact meets_required.mpr hrequired

theorem valid_stringConst {s : String} {v : Json} :
    R.Valid v (.stringConst s) ↔ v = .string s := by
  rw [valid_iff]
  simp only [Fragment.stringConst, List.forall_mem_cons, meets_type, meets_const]
  cases v <;> simp [hasType, isConstant, Json.same]
  exact eq_comm

theorem valid_booleanConst {b : Bool} {v : Json} :
    R.Valid v (.booleanConst b) ↔ v = .bool b := by
  rw [valid_iff]
  simp only [Fragment.booleanConst, List.forall_mem_cons, meets_type, meets_const]
  cases v <;> simp [hasType, isConstant, Json.same]
  exact eq_comm

theorem valid_integerConst {i : Int} {v : Json} :
    R.Valid v (.integerConst i) ↔
      ∃ n, v = .number n ∧ R.whole n = true ∧ R.constant (.int i) n = true := by
  rw [valid_iff]
  simp only [Fragment.integerConst, List.forall_mem_cons, meets_type, meets_const, Json.int]
  cases v <;> simp [hasType, isConstant]

theorem valid_numberConst {x : Double} {v : Json} :
    R.Valid v (.numberConst (.finite x)) ↔
      ∃ n, v = .number n ∧ R.constant (.float x) n = true := by
  rw [valid_iff]
  simp only [Fragment.numberConst, List.forall_mem_cons, meets_type, meets_const, Json.float]
  cases v <;> simp [hasType, isConstant]

/-! ## Keywords that constrain nothing -/

/-- The keywords of documents that tell about values and constrain none. -/
def silentKeywords : List String := ["$schema", "deprecated", "description", "default"]

theorem meets_silent {declared : String → Bool} {entry : String × Json}
    (h : entry.1 ∈ silentKeywords) (v : Json) : R.meets declared entry v = true := by
  obtain ⟨keyword, argument⟩ := entry
  simp only [silentKeywords, List.mem_cons, List.not_mem_nil, or_false] at h
  rcases h with rfl | rfl | rfl | rfl <;> rfl

/-- A patch of silent keywords changes nothing about what a schema admits. -/
theorem valid_merge {base patch : Fragment} (h : ∀ keyword ∈ Table.keys patch, keyword ∈ silentKeywords)
    {v : Json} : R.Valid v (Table.merge base patch) ↔ R.Valid v base := by
  have hdecl : Fragment.declares (Table.merge base patch) = Fragment.declares base := by
    have hfresh : "properties" ∉ Table.keys patch := fun hmem => absurd (h _ hmem) (by decide)
    funext name
    rw [Fragment.declares, Fragment.declares, Table.find?_merge_of_not_mem hfresh]
  rw [valid_iff, valid_iff, hdecl]
  constructor
  · intro hmerged entry hentry
    by_cases hsilent : entry.1 ∈ silentKeywords
    · exact meets_silent hsilent v
    · exact hmerged entry (Table.mem_merge_of_not_mem hentry fun hmem => hsilent (h _ hmem))
  · intro hbase entry hentry
    rcases Table.mem_merge hentry with hentry | hentry
    · exact hbase entry hentry
    · exact meets_silent (h _ (Table.mem_keys_of_mem hentry)) v

/-- Nor do silent keywords that the schema is merged into. -/
theorem valid_merge_left {base patch : Fragment}
    (h : ∀ keyword ∈ Table.keys base, keyword ∈ silentKeywords) (hpatch : Table.Distinct patch)
    {v : Json} : R.Valid v (Table.merge base patch) ↔ R.Valid v patch := by
  have hdecl : Fragment.declares (Table.merge base patch) = Fragment.declares patch := by
    have hfresh : "properties" ∉ Table.keys base := fun hmem => absurd (h _ hmem) (by decide)
    funext name
    rw [Fragment.declares, Fragment.declares, Table.find?_merge hpatch,
      Table.find?_eq_none_iff.mpr hfresh, Option.or_none]
  rw [valid_iff, valid_iff, hdecl]
  constructor
  · intro hmerged entry hentry
    refine hmerged entry (Table.mem_of_find? ?_)
    rw [Table.find?_merge hpatch, hpatch.find?_eq hentry, Option.some_or]
  · intro hvalid entry hentry
    rcases Table.mem_merge hentry with hentry | hentry
    · exact meets_silent (h _ (Table.mem_keys_of_mem hentry)) v
    · exact hvalid entry hentry

end Reading

end ShapeSchema
