import Mathlib.Data.List.Forall2
import ShapeSchema.Table

/-!
# Laws of ordered tables

What `insert` and `merge` do to the keys and to the entries of a table. A table with distinct keys
is the table of its own entries.
-/

namespace ShapeSchema.Table

variable {κ β : Type}

@[simp] theorem keys_nil : keys ([] : Table κ β) = [] := rfl

@[simp] theorem keys_cons (entry : κ × β) (rest : Table κ β) :
    keys (entry :: rest) = entry.1 :: keys rest := rfl

theorem mem_keys_of_mem {entry : κ × β} {t : Table κ β} (h : entry ∈ t) : entry.1 ∈ keys t :=
  List.mem_map.mpr ⟨entry, h, rfl⟩

/-- Tables with the same keys position by position. -/
theorem keys_eq_of_forall₂ {β' : Type} {R : κ × β → κ × β' → Prop} {t : Table κ β} {t' : Table κ β'}
    (h : List.Forall₂ R t t') (hkey : ∀ e e', R e e' → e'.1 = e.1) : keys t' = keys t := by
  induction h with
  | nil => rfl
  | cons hfirst _ ih => rw [keys_cons, keys_cons, hkey _ _ hfirst, ih]

/-- Tables with the same keys position by position, and related values under them. -/
theorem forall₂_of_keys {β' : Type} {R : κ → β → β' → Prop} {t : Table κ β} {t' : Table κ β'}
    (hkeys : keys t' = keys t) (h : ∀ p ∈ t.zip t', R p.1.1 p.1.2 p.2.2) :
    List.Forall₂ (fun e e' => e'.1 = e.1 ∧ R e.1 e.2 e'.2) t t' := by
  induction t generalizing t' with
  | nil =>
    obtain rfl : t' = [] := List.map_eq_nil_iff.mp hkeys
    exact .nil
  | cons e rest ih =>
    cases t' with
    | nil => cases hkeys
    | cons e' rest' =>
      obtain ⟨hkey, hrest⟩ := List.cons.inj hkeys
      exact .cons ⟨hkey, h (e, e') (by simp)⟩ (ih hrest fun p hp => h p (by simp [hp]))

theorem distinct_cons {entry : κ × β} {rest : Table κ β} :
    Distinct (entry :: rest) ↔ entry.1 ∉ keys rest ∧ Distinct rest := List.nodup_cons

theorem Distinct.filter {t : Table κ β} (h : Distinct t) (p : κ × β → Bool) :
    Distinct (t.filter p) :=
  List.Nodup.sublist (List.filter_sublist.map _) h

theorem keys_map {β' : Type} (f : β → β') (t : Table κ β) :
    keys (t.map fun entry => (entry.1, f entry.2)) = keys t := by
  simp [keys]

theorem Distinct.map {β' : Type} {t : Table κ β} (h : Distinct t) (f : β → β') :
    Distinct (t.map fun entry => (entry.1, f entry.2)) := by
  rwa [Distinct, keys_map]

variable [DecidableEq κ]

/-! ## Looking up -/

theorem find?_eq_none_iff {k : κ} {t : Table κ β} : find? k t = none ↔ k ∉ keys t := by
  induction t with
  | nil => simp [find?]
  | cons entry rest ih =>
    obtain ⟨k', v⟩ := entry
    by_cases h : k' = k
    · simp [find?, h]
    · simp [find?, h, ih, Ne.symm h]

theorem mem_of_find? {k : κ} {v : β} {t : Table κ β} (h : find? k t = some v) : (k, v) ∈ t := by
  induction t with
  | nil => simp [find?] at h
  | cons entry rest ih =>
    obtain ⟨k', v'⟩ := entry
    by_cases hk : k' = k
    · obtain rfl : v' = v := by simpa [find?, hk] using h
      simp [hk]
    · exact List.mem_cons_of_mem _ (ih (by simpa [find?, hk] using h))

theorem contains_iff {k : κ} {t : Table κ β} : contains k t = true ↔ k ∈ keys t := by
  rw [contains, ← Option.ne_none_iff_isSome, ne_eq, find?_eq_none_iff, Decidable.not_not]

/-- With distinct keys, what is found under a key is what the key's entry holds. -/
theorem Distinct.find?_eq {k : κ} {v : β} {t : Table κ β} (ht : Distinct t) (h : (k, v) ∈ t) :
    find? k t = some v := by
  induction t with
  | nil => simp at h
  | cons entry rest ih =>
    obtain ⟨hfresh, hrest⟩ := distinct_cons.mp ht
    rcases List.mem_cons.mp h with rfl | hmem
    · simp [find?]
    · have hne : entry.1 ≠ k := fun hk => hfresh (hk ▸ mem_keys_of_mem hmem)
      obtain ⟨k', v'⟩ := entry
      rw [find?, if_neg hne]
      exact ih hrest hmem

/-- With distinct keys, entries with the same key are the same. -/
theorem Distinct.eq_of_key {t : Table κ β} (ht : Distinct t) {e e' : κ × β} (he : e ∈ t)
    (he' : e' ∈ t) (hkey : e.1 = e'.1) : e = e' := by
  have hfound : find? e.1 t = some e.2 := ht.find?_eq he
  rw [hkey, ht.find?_eq he'] at hfound
  exact Prod.ext hkey (Option.some.inj hfound).symm

theorem find?_map {β' : Type} (f : β → β') (k : κ) (t : Table κ β) :
    find? k (t.map fun entry => (entry.1, f entry.2)) = (find? k t).map f := by
  induction t with
  | nil => rfl
  | cons entry rest ih => by_cases hk : entry.1 = k <;> simp [find?, hk, ih]

theorem find?_filter (p : κ → Bool) (k : κ) (t : Table κ β) :
    find? k (t.filter fun entry => p entry.1) = if p k then find? k t else none := by
  induction t with
  | nil => simp [find?]
  | cons entry rest ih =>
    obtain ⟨key, v⟩ := entry
    by_cases hk : key = k
    · subst hk
      by_cases hp : p key
      · simp [find?, hp]
      · simp [hp, ih]
    · by_cases hp : p key <;> simp [find?, hp, hk, ih]

/-! ## Storing -/

theorem insert_of_not_mem {k : κ} {v : β} {t : Table κ β} (h : k ∉ keys t) :
    insert k v t = t ++ [(k, v)] := by
  induction t with
  | nil => rfl
  | cons entry rest ih =>
    obtain ⟨k', v'⟩ := entry
    simp only [keys_cons, List.mem_cons, not_or] at h
    simp [insert, Ne.symm h.1, ih h.2]

theorem keys_insert (k : κ) (v : β) (t : Table κ β) :
    keys (insert k v t) = if k ∈ keys t then keys t else keys t ++ [k] := by
  induction t with
  | nil => simp [insert]
  | cons entry rest ih =>
    obtain ⟨k', v'⟩ := entry
    by_cases hk : k' = k
    · simp [insert, hk]
    · by_cases hmem : k ∈ keys rest <;> simp [insert, hk, Ne.symm hk, ih, hmem]

theorem distinct_insert {k : κ} {v : β} {t : Table κ β} (h : Distinct t) :
    Distinct (insert k v t) := by
  rw [Distinct, keys_insert]
  split
  · exact h
  · rename_i hk
    exact List.nodup_append.mpr ⟨h, by simp, by
      rintro a ha b hb rfl
      exact hk (List.mem_singleton.mp hb ▸ ha)⟩

/-- An entry of the table after storing is the new one, or an old one. -/
theorem mem_insert {k : κ} {v : β} {t : Table κ β} {entry : κ × β}
    (h : entry ∈ insert k v t) : entry = (k, v) ∨ entry ∈ t := by
  induction t with
  | nil => exact .inl (by simpa [insert] using h)
  | cons first rest ih =>
    obtain ⟨k', v'⟩ := first
    by_cases hk : k' = k
    · rw [insert, if_pos hk, hk] at h
      exact (List.mem_cons.mp h).imp id (List.mem_cons_of_mem _)
    · rw [insert, if_neg hk] at h
      rcases List.mem_cons.mp h with rfl | h
      · exact .inr List.mem_cons_self
      · exact (ih h).imp id (List.mem_cons_of_mem _)

theorem mem_insert_of_ne {k : κ} {v : β} {t : Table κ β} {entry : κ × β} (h : entry ∈ t)
    (hne : entry.1 ≠ k) : entry ∈ insert k v t := by
  induction t with
  | nil => simp at h
  | cons first rest ih =>
    obtain ⟨k', v'⟩ := first
    by_cases hk : k' = k
    · rw [insert, if_pos hk]
      rcases List.mem_cons.mp h with rfl | h
      · exact absurd hk hne
      · exact List.mem_cons_of_mem _ h
    · rw [insert, if_neg hk]
      rcases List.mem_cons.mp h with rfl | h
      · exact List.mem_cons_self
      · exact List.mem_cons_of_mem _ (ih h)

@[simp] theorem insert_insert_self (k : κ) (v w : β) (t : Table κ β) :
    insert k v (insert k w t) = insert k v t := by
  induction t with
  | nil => simp [insert]
  | cons entry rest ih => by_cases hk : entry.1 = k <;> simp [insert, hk, ih]

/-- Writing to a key that is there already may come before or after writing to another. -/
theorem insert_comm {k k' : κ} (hne : k ≠ k') (v v' : β) {t : Table κ β} (hk : k ∈ keys t) :
    insert k v (insert k' v' t) = insert k' v' (insert k v t) := by
  induction t with
  | nil => simp at hk
  | cons entry rest ih =>
    obtain ⟨key, w⟩ := entry
    by_cases hkey : key = k
    · simp [insert, hkey, hne]
    · have hrest : k ∈ keys rest := by simpa [Ne.symm hkey] using hk
      by_cases hkey' : key = k'
      · simp [insert, hkey', Ne.symm hne]
      · simp [insert, hkey, hkey', ih hrest]

/-! ## Merging -/

theorem merge_append (base first second : Table κ β) :
    merge base (first ++ second) = merge (merge base first) second :=
  List.foldl_append

theorem distinct_merge {base patch : Table κ β} (h : Distinct base) :
    Distinct (merge base patch) := by
  induction patch generalizing base with
  | nil => exact h
  | cons entry rest ih => exact ih (distinct_insert h)

theorem mem_merge {base patch : Table κ β} {entry : κ × β} (h : entry ∈ merge base patch) :
    entry ∈ base ∨ entry ∈ patch := by
  induction patch generalizing base with
  | nil => exact .inl h
  | cons first rest ih =>
    rcases ih h with h | h
    · exact (mem_insert h).symm.imp id (fun heq => by simp [heq])
    · exact .inr (List.mem_cons_of_mem _ h)

theorem mem_merge_of_not_mem {base patch : Table κ β} {entry : κ × β} (h : entry ∈ base)
    (hfresh : entry.1 ∉ keys patch) : entry ∈ merge base patch := by
  induction patch generalizing base with
  | nil => exact h
  | cons first rest ih =>
    simp only [keys_cons, List.mem_cons, not_or] at hfresh
    exact ih (mem_insert_of_ne h hfresh.1) hfresh.2

theorem find?_merge_of_not_mem {base patch : Table κ β} {k : κ} (hfresh : k ∉ keys patch) :
    find? k (merge base patch) = find? k base := by
  induction patch generalizing base with
  | nil => rfl
  | cons first rest ih =>
    simp only [keys_cons, List.mem_cons, not_or] at hfresh
    rw [merge_cons, ih hfresh.2, find?_insert_ne hfresh.1]

/-- Under a key of the patch, the table that it is merged into makes no difference. -/
theorem find?_merge_of_mem {base base' patch : Table κ β} {k : κ} (hk : k ∈ keys patch) :
    find? k (merge base patch) = find? k (merge base' patch) := by
  induction patch generalizing base base' with
  | nil => cases hk
  | cons entry rest ih =>
    by_cases hrest : k ∈ keys rest
    · exact ih hrest
    · obtain rfl : k = entry.1 := (List.mem_cons.mp hk).resolve_right hrest
      rw [merge_cons, merge_cons, find?_merge_of_not_mem hrest, find?_merge_of_not_mem hrest,
        find?_insert_self, find?_insert_self]

/-- After merging, a key has the value of the patch, or else the one it had. -/
theorem find?_merge {base patch : Table κ β} (hpatch : Distinct patch) {k : κ} :
    find? k (merge base patch) = (find? k patch).or (find? k base) := by
  induction patch generalizing base with
  | nil => simp [find?]
  | cons entry rest ih =>
    obtain ⟨k', v⟩ := entry
    obtain ⟨hfresh, hrest⟩ := distinct_cons.mp hpatch
    rw [merge_cons, ih hrest, find?]
    by_cases hk : k' = k
    · rw [if_pos hk, ← hk, find?_eq_none_iff.mpr hfresh, find?_insert_self]
      simp
    · rw [if_neg hk, find?_insert_ne (Ne.symm hk)]

/-- Entries under new and distinct keys go to the end of the table, in their order. -/
theorem merge_of_disjoint {base patch : Table κ β} (hpatch : Distinct patch)
    (hfresh : ∀ k ∈ keys patch, k ∉ keys base) : merge base patch = base ++ patch := by
  induction patch generalizing base with
  | nil => simp
  | cons entry rest ih =>
    obtain ⟨hnew, hrest⟩ := distinct_cons.mp hpatch
    have hentry : entry.1 ∉ keys base := hfresh _ (by simp)
    rw [merge_cons, insert_of_not_mem hentry, ih hrest, List.append_assoc]
    · rfl
    · intro k hk hmem
      simp only [keys, List.map_append, List.mem_append, List.map_cons, List.map_nil,
        List.mem_singleton] at hmem
      rcases hmem with hmem | rfl
      · exact hfresh k (by simp [hk]) hmem
      · exact hnew hk

/-- Writing to a key that a patch leaves alone may come before or after merging the patch. -/
theorem insert_merge {base patch : Table κ β} {k : κ} {v : β} (hk : k ∈ keys base)
    (hfresh : k ∉ keys patch) : insert k v (merge base patch) = merge (insert k v base) patch := by
  induction patch generalizing base with
  | nil => rfl
  | cons entry rest ih =>
    simp only [keys_cons, List.mem_cons, not_or] at hfresh
    have hmem : k ∈ keys (insert entry.1 entry.2 base) := by
      rw [keys_insert]
      split
      · exact hk
      · exact List.mem_append_left _ hk
    rw [merge_cons, ih hmem hfresh.2, insert_comm hfresh.1 _ _ hk, merge_cons]

theorem merge_insert {base patch : Table κ β} (hpatch : Distinct patch) (k : κ) (v : β) :
    merge base (insert k v patch) = insert k v (merge base patch) := by
  induction patch generalizing base with
  | nil => rfl
  | cons entry rest ih =>
    obtain ⟨key, w⟩ := entry
    obtain ⟨hfresh, hrest⟩ := distinct_cons.mp hpatch
    by_cases hkey : key = k
    · subst hkey
      have hmem : key ∈ keys (insert key w base) :=
        mem_keys_of_mem (mem_of_find? (find?_insert_self key w base))
      rw [insert, if_pos rfl, merge_cons, merge_cons, insert_merge hmem hfresh,
        insert_insert_self]
    · rw [insert, if_neg hkey, merge_cons, ih hrest, merge_cons]

/-- Two patches may be merged with each other first. -/
theorem merge_merge {base first second : Table κ β} (hfirst : Distinct first) :
    merge base (merge first second) = merge (merge base first) second := by
  induction second generalizing first with
  | nil => rfl
  | cons entry rest ih =>
    rw [merge_cons, ih (distinct_insert hfirst), merge_insert hfirst, merge_cons]

theorem merge_ofList (base patch : Table κ β) : merge base (ofList patch) = merge base patch := by
  have hnil : Distinct ([] : Table κ β) := List.nodup_nil
  rw [ofList, merge_merge hnil, merge_nil]

/-- A key that comes first stays first, whatever is merged; the other new entries follow. -/
theorem merge_first {k : κ} {w : β} {base patch : Table κ β} (hk : k ∉ keys base)
    (hpatch : Distinct patch) (hfresh : ∀ key ∈ keys patch, key ∉ keys base) :
    ∃ v, merge ((k, w) :: base) patch = (k, v) :: (base ++ patch.filter fun e => e.1 ≠ k) := by
  induction patch generalizing w base with
  | nil => exact ⟨w, by simp⟩
  | cons entry rest ih =>
    obtain ⟨key, v⟩ := entry
    obtain ⟨hnew, hrest⟩ := distinct_cons.mp hpatch
    by_cases hkey : key = k
    · subst hkey
      obtain ⟨v', h⟩ := ih (w := v) hk hrest fun key hmem => hfresh key (by simp [hmem])
      exact ⟨v', by simpa [insert] using h⟩
    · have hbase : key ∉ keys base := hfresh key (by simp)
      have hk' : k ∉ keys (base ++ [(key, v)]) := by
        simpa [keys, Ne.symm hkey] using hk
      have hfresh' : ∀ key' ∈ keys rest, key' ∉ keys (base ++ [(key, v)]) := by
        intro key' hmem hmem'
        simp only [keys, List.map_append, List.mem_append, List.map_cons, List.map_nil,
          List.mem_singleton] at hmem'
        rcases hmem' with hmem' | rfl
        · exact hfresh key' (by simp [hmem]) hmem'
        · exact hnew hmem
      obtain ⟨v', h⟩ := ih (w := w) hk' hrest hfresh'
      refine ⟨v', ?_⟩
      rw [merge_cons, insert, if_neg (Ne.symm hkey), insert_of_not_mem hbase, h]
      simp [hkey]

/-- A table with distinct keys is the table of its entries. -/
theorem Distinct.ofList_eq {t : Table κ β} (h : Distinct t) : ofList t = t := by
  rw [ofList, merge_of_disjoint h (by simp), List.nil_append]

end ShapeSchema.Table
