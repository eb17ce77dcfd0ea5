import ShapeSchema.Proofs.Table
import ShapeSchema.Schema.Fragment

/-!
# The algebra of merging

A patch is merged by storing its entries one after the other, each in the place that its key has by
then. Seen as a whole, the base keeps all its places, the new keys follow in the order of the patch,
and the patch has the say under its own keys. That determines the merged table, order included.
-/

namespace ShapeSchema

namespace Table

variable {κ β : Type} [DecidableEq κ] {base patch t t' : Table κ β}

/-! ## Keys of a merged table -/

/-- The keys of the base come first, then those that only the patch has. -/
theorem keys_merge (hpatch : Distinct patch) :
    keys (merge base patch) = keys base ++ (keys patch).filter fun k => k ∉ keys base := by
  induction patch generalizing base with
  | nil => simp
  | cons entry rest ih =>
    obtain ⟨hnew, hrest⟩ := distinct_cons.mp hpatch
    rw [merge_cons, ih hrest, keys_insert, keys_cons]
    by_cases hk : entry.1 ∈ keys base
    · rw [if_pos hk, List.filter_cons_of_neg (by simpa using hk)]
    · -- Once the first key is stored, the rest is compared with one key more, which it has not.
      have hrest_filter : (keys rest).filter (fun k => k ∉ keys base ++ [entry.1]) =
          (keys rest).filter fun k => k ∉ keys base := by
        refine List.filter_congr fun k hmem => ?_
        have hne : k ≠ entry.1 := fun heq => hnew (heq ▸ hmem)
        simp [hne]
      rw [if_neg hk, List.filter_cons_of_pos (by simpa using hk), hrest_filter, List.append_assoc]
      rfl

/-! ## Tables with the same keys -/

/-- A table is determined by its keys, in order, and by what is found under them. -/
theorem eq_of_keys (ht : Distinct t) (hkeys : keys t' = keys t)
    (hfind : ∀ k, find? k t' = find? k t) : t' = t := by
  induction t generalizing t' with
  | nil => exact List.map_eq_nil_iff.mp hkeys
  | cons entry rest ih =>
    cases t' with
    | nil => cases hkeys
    | cons entry' rest' =>
      obtain ⟨k, v⟩ := entry
      obtain ⟨k', v'⟩ := entry'
      obtain ⟨rfl, hkeys_rest⟩ : k' = k ∧ keys rest' = keys rest := List.cons.inj hkeys
      obtain ⟨hfresh, hrest⟩ := distinct_cons.mp ht
      obtain rfl : v' = v := by simpa [find?] using hfind k'
      have hfind_rest : ∀ key, find? key rest' = find? key rest := by
        intro key
        by_cases hkey : k' = key
        · subst hkey
          rw [find?_eq_none_iff.mpr hfresh, find?_eq_none_iff.mpr (hkeys_rest ▸ hfresh)]
        · simpa [find?, hkey] using hfind key
      rw [ih hrest hkeys_rest hfind_rest]

/-- The merged table is the one with the keys of the base and then the new keys of the patch, and with
what the patch says under its keys and the base under the others. -/
theorem eq_merge_iff (hbase : Distinct base) (hpatch : Distinct patch) :
    t = merge base patch ↔
      keys t = keys base ++ (keys patch).filter (fun k => k ∉ keys base) ∧
        ∀ k, find? k t = (find? k patch).or (find? k base) := by
  constructor
  · rintro rfl
    exact ⟨keys_merge hpatch, fun k => find?_merge hpatch⟩
  · rintro ⟨hkeys, hfind⟩
    refine eq_of_keys (distinct_merge hbase) (hkeys.trans (keys_merge hpatch).symm) fun k => ?_
    rw [hfind k, find?_merge hpatch]

/-! ## What is there already -/

/-- Storing what is found changes nothing. -/
theorem insert_of_find? {k : κ} {v : β} (h : find? k t = some v) : insert k v t = t := by
  induction t with
  | nil => cases h
  | cons entry rest ih =>
    obtain ⟨key, w⟩ := entry
    by_cases hkey : key = k
    · obtain rfl : w = v := by simpa [find?, hkey] using h
      rw [insert, if_pos hkey]
    · rw [find?, if_neg hkey] at h
      rw [insert, if_neg hkey, ih h]

theorem merge_of_find? (h : ∀ entry ∈ patch, find? entry.1 base = some entry.2) :
    merge base patch = base := by
  induction patch with
  | nil => rfl
  | cons entry rest ih =>
    obtain ⟨hentry, hrest⟩ := List.forall_mem_cons.mp h
    rw [merge_cons, insert_of_find? hentry, ih hrest]

/-- Merging a patch once more changes nothing. -/
theorem merge_merge_self (hpatch : Distinct patch) :
    merge (merge base patch) patch = merge base patch := by
  refine merge_of_find? fun entry hentry => ?_
  rw [find?_merge hpatch, hpatch.find?_eq hentry, Option.some_or]

end Table

/-- **Merging fragments.** Merging fragments without repeated keys gives such a fragment: the one whose
keys are those of the first, followed by the new ones of the second, and which has under each key the
value of the second fragment, or else that of the first. Merging is associative, a second merge of
the same fragment does nothing, and the empty fragment is neutral on both sides, all with the order of
the keys. -/
theorem fragments_merge {a b : Fragment} (ha : Table.Distinct a) (hb : Table.Distinct b) :
    Table.Distinct (Table.merge a b) ∧
    (∀ merged, merged = Table.merge a b ↔
      Table.keys merged =
        Table.keys a ++ (Table.keys b).filter (fun key => key ∉ Table.keys a) ∧
      ∀ key, Table.find? key merged = (Table.find? key b).or (Table.find? key a)) ∧
    (∀ c, Table.merge (Table.merge a b) c = Table.merge a (Table.merge b c)) ∧
    Table.merge (Table.merge a b) b = Table.merge a b ∧
    Table.merge a Fragment.empty = a ∧ Table.merge Fragment.empty a = a :=
  ⟨Table.distinct_merge ha, fun _ => Table.eq_merge_iff ha hb,
    fun _ => (Table.merge_merge hb).symm, Table.merge_merge_self hb, Table.merge_nil a,
    ha.ofList_eq⟩

/-- The schema of an object with a description. -/
def describedObject : Fragment :=
  [("type", .string "object"), ("properties", .object [("a", .object [])]),
    ("description", .string "old")]

/-- Other properties, another description, and a title. -/
def titledPatch : Fragment :=
  [("properties", .object [("b", .object [])]), ("description", .string "new"),
    ("title", .string "T")]

/-- Another title, and the type once more, behind a new keyword. -/
def retitledPatch : Fragment :=
  [("title", .string "U"), ("deprecated", .bool true), ("type", .string "object")]

theorem fragments_merge_titled :
    Table.Distinct describedObject ∧ Table.Distinct titledPatch ∧
    Table.keys (Table.merge describedObject titledPatch) =
      ["type", "properties", "description", "title"] ∧
    Table.find? "description" (Table.merge describedObject titledPatch) = some (.string "new") ∧
    Table.merge (Table.merge describedObject titledPatch) retitledPatch =
      Table.merge describedObject (Table.merge titledPatch retitledPatch) ∧
    Table.merge (Table.merge describedObject titledPatch) titledPatch =
      Table.merge describedObject titledPatch := by
  have hobject : Table.Distinct describedObject := by decide
  have hpatch : Table.Distinct titledPatch := by decide
  obtain ⟨-, hmerged, hassoc, htwice, -⟩ := fragments_merge hobject hpatch
  obtain ⟨hkeys, hfind⟩ := (hmerged _).mp rfl
  exact ⟨hobject, hpatch, hkeys.trans (by decide), (hfind "description").trans rfl,
    hassoc retitledPatch, htwice⟩

end ShapeSchema
