import Mathlib.Data.List.Perm.Subperm
import ShapeSchema.Proofs.Pairs
import ShapeSchema.Proofs.Table

/-!
# Tables that agree without order

Two tables agree if they have the same keys, in whatever order, and related values under each key.
Merging tables that agree gives tables that agree.
-/

namespace ShapeSchema

theorem either_of_rel {β γ : Type} {R : β → γ → Prop} {a : Option β} {b : Option γ}
    (h : Option.Rel R a b) :
    (a = none ∧ b = none) ∨ ∃ v w, a = some v ∧ b = some w ∧ R v w := by
  cases h with
  | some hvw => exact .inr ⟨_, _, rfl, rfl, hvw⟩
  | none => exact .inl ⟨rfl, rfl⟩

theorem rel_imp {β γ : Type} {R S : β → γ → Prop} {a : Option β} {b : Option γ}
    (h : Option.Rel R a b) (himp : ∀ v w, a = some v → b = some w → R v w → S v w) :
    Option.Rel S a b := by
  cases h with
  | some hvw => exact .some (himp _ _ rfl rfl hvw)
  | none => exact .none

namespace Table

variable {κ β γ δ ε : Type} [DecidableEq κ]

/-- Both tables have a value under a key, and the two are related, or neither has one. -/
def Agree (R : κ → β → γ → Prop) (t : Table κ β) (t' : Table κ γ) : Prop :=
  ∀ k, Option.Rel (R k) (find? k t) (find? k t')

variable {R : κ → β → γ → Prop} {t : Table κ β} {t' : Table κ γ}

namespace Agree

theorem nil : Agree R [] [] := fun _ => .none

theorem cons {k : κ} {v : β} {w : γ} (h : R k v w) (ht : Agree R t t') :
    Agree R ((k, v) :: t) ((k, w) :: t') := by
  intro key
  rw [find?, find?]
  by_cases hk : k = key
  · rw [if_pos hk, if_pos hk]
    exact .some (hk ▸ h)
  · rw [if_neg hk, if_neg hk]
    exact ht key

theorem of_forall₂ (h : List.Forall₂ (fun e e' => e'.1 = e.1 ∧ R e.1 e.2 e'.2) t t') :
    Agree R t t' := by
  induction h with
  | nil => exact nil
  | @cons e e' _ _ hentry _ ih =>
    obtain ⟨k, v⟩ := e
    obtain ⟨_, w⟩ := e'
    obtain ⟨rfl, hvalue⟩ := hentry
    exact cons hvalue ih

/-! ## Looking up -/

theorem either (h : Agree R t t') (k : κ) : (find? k t = none ∧ find? k t' = none) ∨
    ∃ v w, find? k t = some v ∧ find? k t' = some w ∧ R k v w :=
  either_of_rel (h k)

theorem find?_eq_some (h : Agree R t t') {k : κ} {v : β} (hv : find? k t = some v) :
    ∃ w, find? k t' = some w ∧ R k v w := by
  rcases h.either k with ⟨hnone, -⟩ | ⟨v', w, hv', hw, hvw⟩
  · rw [hv] at hnone
    cases hnone
  · rw [hv] at hv'
    obtain rfl : v = v' := Option.some.inj hv'
    exact ⟨w, hw, hvw⟩

theorem flip (h : Agree R t t') : Agree (fun k w v => R k v w) t' t := by
  intro k
  rcases h.either k with ⟨hv, hw⟩ | ⟨v, w, hv, hw, hvw⟩
  · rw [hv, hw]
    exact .none
  · rw [hv, hw]
    exact .some hvw

theorem mem_keys_iff (h : Agree R t t') {k : κ} : k ∈ keys t ↔ k ∈ keys t' := by
  rw [← not_iff_not, ← find?_eq_none_iff, ← find?_eq_none_iff]
  rcases h.either k with ⟨hv, hw⟩ | ⟨v, w, hv, hw, -⟩ <;> simp [hv, hw]

theorem contains_eq (h : Agree R t t') (k : κ) : contains k t = contains k t' := by
  rw [Bool.eq_iff_iff, contains_iff, contains_iff, h.mem_keys_iff]

theorem eq_nil (h : Agree R [] t') : t' = [] := by
  cases t' with
  | nil => rfl
  | cons entry rest => exact absurd (h.mem_keys_iff.mpr List.mem_cons_self) List.not_mem_nil

theorem keys_perm (h : Agree R t t') (ht : Distinct t) (ht' : Distinct t') :
    (keys t).Perm (keys t') :=
  (List.perm_ext_iff_of_nodup ht ht').mpr fun _ => h.mem_keys_iff

theorem length_eq (h : Agree R t t') (ht : Distinct t) (ht' : Distinct t') :
    t.length = t'.length := by
  simpa [keys] using (h.keys_perm ht ht').length_eq

/-- Another relation between the values, which need only follow for values of one key. -/
theorem imp {S : κ → β → γ → Prop} (h : Agree R t t')
    (himp : ∀ k v w, find? k t = some v → find? k t' = some w → R k v w → S k v w) :
    Agree S t t' := by
  intro k
  rcases h.either k with ⟨hv, hw⟩ | ⟨v, w, hv, hw, hvw⟩
  · rw [hv, hw]
    exact .none
  · rw [hv, hw]
    exact .some (himp k v w hv hw hvw)

theorem trans {Q : κ → γ → δ → Prop} {S : κ → β → δ → Prop} {t'' : Table κ δ} (h : Agree R t t')
    (h' : Agree Q t' t'')
    (hS : ∀ k a b c, find? k t = some a → find? k t' = some b → find? k t'' = some c →
      R k a b → Q k b c → S k a c) : Agree S t t'' := by
  intro k
  rcases h.either k with ⟨ha, hb⟩ | ⟨a, b, ha, hb, hab⟩
  · have hc : find? k t'' = none := by
      rw [find?_eq_none_iff, ← h'.mem_keys_iff, ← find?_eq_none_iff]
      exact hb
    rw [ha, hc]
    exact .none
  · obtain ⟨c, hc, hbc⟩ := h'.find?_eq_some hb
    rw [ha, hc]
    exact .some (hS k a b c ha hb hc hab hbc)

theorem map {β' γ' : Type} {S : κ → β' → γ' → Prop} {f : β → β'} {g : γ → γ'} (h : Agree R t t')
    (hfg : ∀ k v w, R k v w → S k (f v) (g w)) :
    Agree S (t.map fun entry => (entry.1, f entry.2)) (t'.map fun entry => (entry.1, g entry.2)) := by
  intro k
  rw [find?_map, find?_map]
  rcases h.either k with ⟨hv, hw⟩ | ⟨v, w, hv, hw, hvw⟩
  · rw [hv, hw]
    exact .none
  · rw [hv, hw]
    exact .some (hfg k v w hvw)

theorem filter (h : Agree R t t') {p q : κ → Bool} (hpq : ∀ k, p k = q k) :
    Agree R (t.filter fun entry => p entry.1) (t'.filter fun entry => q entry.1) := by
  intro k
  rw [find?_filter, find?_filter, hpq k]
  split
  · exact h k
  · exact .none

/-- If each value leads from what is found for it to something for its partner, then there is a table
of what is found for the second table. -/
theorem exists_following {P : κ → β → δ → Prop} {Q : κ → γ → ε → Prop} {S : κ → δ → ε → Prop}
    {out : Table κ δ} (h : Agree R t t') (ht' : Distinct t')
    (hout : List.Forall₂ (fun e o => o.1 = e.1 ∧ P e.1 e.2 o.2) t out)
    (hstep : ∀ k a b c, (k, a) ∈ t → (k, b) ∈ t' → R k a b → P k a c → ∃ d, Q k b d ∧ S k c d) :
    ∃ out', List.Forall₂ (fun e o => o.1 = e.1 ∧ Q e.1 e.2 o.2) t' out' ∧ Agree S out out' := by
  have htout : Agree P t out := .of_forall₂ hout
  have hchoice : ∀ e ∈ t', ∃ o : κ × ε, o.1 = e.1 ∧ Q e.1 e.2 o.2 ∧
      ∃ c, find? e.1 out = some c ∧ S e.1 c o.2 := by
    rintro ⟨k, b⟩ hmem
    obtain ⟨a, ha, hab⟩ := h.flip.find?_eq_some (ht'.find?_eq hmem)
    obtain ⟨c, hc, hac⟩ := htout.find?_eq_some ha
    obtain ⟨d, hd, hcd⟩ := hstep k a b c (mem_of_find? ha) hmem hab hac
    exact ⟨(k, d), rfl, hd, c, hc, hcd⟩
  obtain ⟨out', hout'⟩ := exists_forall₂ hchoice
  refine ⟨out', hout'.imp fun _ _ h => ⟨h.1, h.2.1⟩, ?_⟩
  have htout' : Agree (fun k _ d => ∃ c, find? k out = some c ∧ S k c d) t' out' :=
    .of_forall₂ (hout'.imp fun _ _ h => ⟨h.1, h.2.2⟩)
  have hkeys : Agree (fun _ _ _ => True) out t' :=
    htout.flip.trans h fun _ _ _ _ _ _ _ _ _ => trivial
  refine hkeys.trans htout' fun k c b d hc _ _ _ hcd => ?_
  obtain ⟨c', hc', hcd⟩ := hcd
  rw [hc] at hc'
  obtain rfl : c = c' := Option.some.inj hc'
  exact hcd

/-! ## Merging -/

/-- Under a key of the patches, the values of the patches count; under any other, those before. -/
theorem merge {Q : κ → β → γ → Prop} {patch : Table κ β} {patch' : Table κ γ}
    (hbase : Agree Q t t') (hpatch : Agree R patch patch') (hdistinct : Distinct patch)
    (hdistinct' : Distinct patch') (h : ∀ k v w, k ∉ keys patch → Q k v w → R k v w) :
    Agree R (Table.merge t patch) (Table.merge t' patch') := by
  intro k
  rw [find?_merge hdistinct, find?_merge hdistinct']
  rcases hpatch.either k with ⟨hv, hw⟩ | ⟨v, w, hv, hw, hvw⟩
  · rw [hv, hw, Option.none_or, Option.none_or]
    rcases hbase.either k with ⟨hv', hw'⟩ | ⟨v', w', hv', hw', hvw'⟩
    · rw [hv', hw']
      exact .none
    · rw [hv', hw']
      exact .some (h k v' w' (find?_eq_none_iff.mp hv) hvw')
  · rw [hv, hw]
    exact .some hvw

end Agree

/-- Tables with distinct keys agree if they have equally many entries, and each of the first has its
partner in the second. -/
theorem agree_iff (ht : Distinct t) (ht' : Distinct t') :
    Agree R t t' ↔ t.length = t'.length ∧
      ∀ entry ∈ t, ∃ w, find? entry.1 t' = some w ∧ R entry.1 entry.2 w := by
  constructor
  · intro h
    exact ⟨h.length_eq ht ht', fun entry hentry => h.find?_eq_some (ht.find?_eq hentry)⟩
  · rintro ⟨hlength, h⟩ k
    have hsubset : keys t ⊆ keys t' := by
      intro key hkey
      obtain ⟨entry, hentry, rfl⟩ := List.mem_map.mp hkey
      obtain ⟨w, hw, -⟩ := h entry hentry
      exact mem_keys_of_mem (mem_of_find? hw)
    -- As there are equally many, the second has no other keys.
    have hperm : (keys t).Perm (keys t') :=
      (List.subperm_of_subset ht hsubset).perm_of_length_le (by simp [keys, hlength])
    cases hv : find? k t with
    | none =>
      have hfresh : k ∉ keys t' := fun hmem => find?_eq_none_iff.mp hv (hperm.mem_iff.mpr hmem)
      rw [find?_eq_none_iff.mpr hfresh]
      exact .none
    | some v =>
      obtain ⟨w, hw, hvw⟩ := h _ (mem_of_find? hv)
      rw [hw]
      exact .some hvw

/-- A table agrees with itself in any order of its entries. -/
theorem agree_of_perm {R : κ → β → β → Prop} {t t' : Table κ β} (hperm : t.Perm t')
    (ht : Distinct t) (h : ∀ entry ∈ t, R entry.1 entry.2 entry.2) : Agree R t t' := by
  have ht' : Distinct t' := (hperm.map Prod.fst).nodup_iff.mp ht
  refine (agree_iff ht ht').mpr ⟨hperm.length_eq, fun entry hentry => ?_⟩
  exact ⟨entry.2, ht'.find?_eq (hperm.mem_iff.mp hentry), h entry hentry⟩

/-- The order of the entries does not matter when a key is looked up. -/
theorem find?_perm {t t' : Table κ β} (hperm : t.Perm t') (ht : Distinct t) (k : κ) :
    find? k t = find? k t' := by
  have hagree : Agree (fun _ => Eq) t t' := agree_of_perm hperm ht fun _ _ => rfl
  rcases hagree.either k with ⟨hv, hw⟩ | ⟨v, w, hv, hw, rfl⟩
  · rw [hv, hw]
  · rw [hv, hw]

theorem agree_refl {R : κ → β → β → Prop} (ht : Distinct t)
    (h : ∀ entry ∈ t, R entry.1 entry.2 entry.2) : Agree R t t :=
  agree_of_perm (.refl t) ht h

end Table

end ShapeSchema
