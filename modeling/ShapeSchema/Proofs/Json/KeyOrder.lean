import Mathlib.Data.List.Nodup
import ShapeSchema.Proofs.Json.Equality

/-!
# Values that differ in the order of keys

Two values that differ in nothing but the order of the keys of their objects, at any depth. Unlike
`Json.same`, which also identifies the two zeros, this leaves every scalar as it is.
-/

namespace ShapeSchema.Json

/-- The values differ only in the order of the keys of objects, at any depth. -/
inductive Reordered : Json → Json → Prop
  | refl (v : Json) : Reordered v v
  | array {xs ys : List Json} (items : List.Forall₂ Reordered xs ys) :
    Reordered (.array xs) (.array ys)
  /-- The entries of the first, put in the order of the second, have the keys of the second. -/
  | object {xs permuted ys : Table String Json} (perm : xs.Perm permuted)
    (keys : Table.keys permuted = Table.keys ys)
    (values : List.Forall₂ Reordered (permuted.map Prod.snd) (ys.map Prod.snd)) :
    Reordered (.object xs) (.object ys)

theorem Reordered.alike {v w : Json} (h : v.Reordered w) : v.Alike w := by
  cases h with
  | refl =>
    cases v with
    | null => exact .null
    | bool b => exact .bool b
    | number n => exact .number n.same_refl
    | string s => exact .string s
    | array xs => exact .array xs xs
    | object xs => exact .object xs xs
  | @array xs ys => exact .array xs ys
  | @object xs _ ys => exact .object xs ys

/-- A scalar is left as it is. -/
theorem Reordered.eq_of_depth {v w : Json} (h : v.Reordered w) (hv : v.depth = 0) : v = w := by
  cases h with
  | refl => rfl
  | array => cases hv
  | object => cases hv

theorem reordered_array_iff {xs ys : List Json} :
    (Json.array xs).Reordered (.array ys) ↔ List.Forall₂ Reordered xs ys := by
  constructor
  · intro h
    cases h with
    | refl => exact List.forall₂_same.mpr fun v _ => .refl v
    | array h => exact h
  · exact .array

theorem reordered_object_iff {xs ys : Table String Json} (hxs : Table.Distinct xs)
    (hys : Table.Distinct ys) :
    (Json.object xs).Reordered (.object ys) ↔ Table.Agree (fun _ => Reordered) xs ys := by
  constructor
  · intro h
    cases h with
    | refl => exact Table.agree_refl hxs fun entry _ => .refl entry.2
    | @object _ permuted _ hperm hkeys hvalues =>
      have hpermuted : Table.Agree (fun _ => Eq) xs permuted :=
        Table.agree_of_perm hperm hxs fun _ _ => rfl
      rw [List.forall₂_map_left_iff, List.forall₂_map_right_iff] at hvalues
      have hrest : Table.Agree (fun _ => Reordered) permuted ys :=
        .of_forall₂ (Table.forall₂_of_keys (R := fun _ => Reordered) hkeys.symm fun _ hp =>
          List.forall₂_zip hvalues hp)
      exact hpermuted.trans hrest fun _ _ _ _ _ _ _ hv hvw => hv ▸ hvw
  · intro h
    -- Each entry of the second takes its partner of the first along.
    have hpartner : ∀ e ∈ ys, ∃ e' : String × Json,
        e' ∈ xs ∧ e.1 = e'.1 ∧ e'.2.Reordered e.2 := by
      rintro ⟨k, w⟩ hmem
      obtain ⟨v, hv, hvw⟩ := h.flip.find?_eq_some (hys.find?_eq hmem)
      exact ⟨(k, v), Table.mem_of_find? hv, rfl, hvw⟩
    obtain ⟨permuted, hpermuted⟩ := exists_forall₂ hpartner
    have hkeys : Table.keys ys = Table.keys permuted :=
      Table.keys_eq_of_forall₂ hpermuted.flip fun _ _ h => h.2.1
    have hdistinct : Table.Distinct permuted := by rwa [Table.Distinct, ← hkeys]
    have hsubset : permuted ⊆ xs := by
      intro e' he'
      obtain ⟨e, -, hmem, -⟩ := exists_left_of_mem hpermuted he'
      exact hmem
    have hlength : xs.length ≤ permuted.length := by
      rw [h.length_eq hxs hys]
      exact Nat.le_of_eq hpermuted.length_eq
    refine .object ((List.subperm_of_subset (.of_map Prod.fst hdistinct) hsubset).perm_of_length_le hlength).symm
      hkeys.symm ?_
    rw [List.forall₂_map_left_iff, List.forall₂_map_right_iff]
    exact hpermuted.flip.imp fun _ _ h => h.2.2

/-- A reordered value keeps the keys of each object distinct. -/
theorem Reordered.wellFormed {v w : Json} (h : v.Reordered w) (hv : v.WellFormed) : w.WellFormed := by
  induction v using Json.induction generalizing w with
  | array xs ih =>
    cases h with
    | refl => exact hv
    | array hitems =>
      refine wellFormed_array.mpr fun w hw => ?_
      obtain ⟨v, hmem, hvw⟩ := exists_left_of_mem hitems hw
      exact ih v hmem hvw (wellFormed_array.mp hv v hmem)
  | object xs ih =>
    cases h with
    | refl => exact hv
    | @object _ permuted ys hperm hkeys hvalues =>
      obtain ⟨hdistinct, hvs⟩ := wellFormed_object.mp hv
      have hpermuted : Table.Distinct permuted := (hperm.map Prod.fst).nodup_iff.mp hdistinct
      refine wellFormed_object.mpr ⟨by rwa [Table.Distinct, ← hkeys], fun entry hentry => ?_⟩
      obtain ⟨v, hmem, hvw⟩ := exists_left_of_mem hvalues (List.mem_map_of_mem hentry)
      obtain ⟨e, he, rfl⟩ := List.mem_map.mp hmem
      have he' := hperm.mem_iff.mpr he
      exact ih e he' hvw (hvs e he')
  | _ =>
    cases h
    exact hv

theorem Reordered.symm {v w : Json} (h : v.Reordered w) (hv : v.WellFormed) : w.Reordered v := by
  induction v using Json.induction generalizing w with
  | array xs ih =>
    cases h with
    | refl => exact .refl _
    | array hitems =>
      refine .array (List.Forall₂.flip ?_)
      exact forall₂_imp_of_mem hitems fun v hmem w hvw => ih v hmem hvw (wellFormed_array.mp hv v hmem)
  | object xs ih =>
    have hw := h.wellFormed hv
    cases h.alike with
    | object _ ys =>
      obtain ⟨hxs, hvs⟩ := wellFormed_object.mp hv
      have hys := (wellFormed_object.mp hw).1
      have hentries := (reordered_object_iff hxs hys).mp h
      refine (reordered_object_iff hys hxs).mpr (hentries.flip.imp fun k w v _ hv hvw => ?_)
      have hmem := Table.mem_of_find? hv
      exact ih _ hmem hvw (hvs _ hmem)
  | _ =>
    cases h
    exact .refl _

theorem keyBlind_reordered : KeyBlind Reordered where
  alike := Reordered.alike
  null := .refl .null
  symm hv _ h := h.symm hv
  array := reordered_array_iff
  object := reordered_object_iff

end ShapeSchema.Json
