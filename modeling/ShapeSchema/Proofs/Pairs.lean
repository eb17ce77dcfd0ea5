import Mathlib.Data.List.Forall2

/-!
# Lists that agree position by position

Partners under `List.Forall₂`: each element of one list has one in the other.
-/

namespace ShapeSchema

variable {α β γ δ : Type} {R : α → β → Prop} {as : List α} {bs : List β}

theorem exists_right_of_mem (h : List.Forall₂ R as bs) {a : α} (ha : a ∈ as) : ∃ b ∈ bs, R a b := by
  induction h with
  | nil => simp at ha
  | @cons first b _ bs hfirst _ ih =>
    rcases List.mem_cons.mp ha with rfl | ha
    · exact ⟨b, by simp, hfirst⟩
    · obtain ⟨b', hb', hab⟩ := ih ha
      exact ⟨b', by simp [hb'], hab⟩

theorem exists_left_of_mem (h : List.Forall₂ R as bs) {b : β} (hb : b ∈ bs) : ∃ a ∈ as, R a b :=
  exists_right_of_mem (List.Forall₂.flip h) hb

/-- Partners are members. -/
theorem forall₂_members (h : List.Forall₂ R as bs) :
    List.Forall₂ (fun a b => a ∈ as ∧ b ∈ bs ∧ R a b) as bs := by
  have hright := (List.forall₂_and_left bs as).mpr ⟨fun _ hb => hb, h.flip⟩
  exact (List.forall₂_and_left as bs).mpr ⟨fun _ ha => ha, hright.flip⟩

theorem exists_left_of_getElem? (h : List.Forall₂ R as bs) {i : Nat} {b : β} (hb : bs[i]? = some b) :
    ∃ a, as[i]? = some a ∧ R a b := by
  induction h generalizing i with
  | nil => simp at hb
  | @cons first _ _ _ hfirst _ ih =>
    cases i with
    | zero =>
      obtain rfl : _ = b := Option.some.inj hb
      exact ⟨first, rfl, hfirst⟩
    | succ i => exact ih hb

/-- In lists of one length, the elements at a position are related, or both lists end before it. -/
theorem rel_getElem? (hlength : bs.length = as.length) {i : Nat}
    (h : ∀ a b, as[i]? = some a → bs[i]? = some b → R a b) : Option.Rel R as[i]? bs[i]? := by
  by_cases hi : i < as.length
  · have hi' : i < bs.length := hlength ▸ hi
    rw [List.getElem?_eq_getElem hi, List.getElem?_eq_getElem hi'] at h ⊢
    exact .some (h _ _ rfl rfl)
  · rw [List.getElem?_eq_none (Nat.not_lt.mp hi),
      List.getElem?_eq_none (hlength ▸ Nat.not_lt.mp hi)]
    exact .none

theorem forall₂_of_getElem? (h : ∀ i : Nat, Option.Rel R as[i]? bs[i]?) : List.Forall₂ R as bs := by
  induction as generalizing bs with
  | nil =>
    cases bs with
    | nil => exact .nil
    | cons b bs => cases h 0
  | cons a as ih =>
    cases bs with
    | nil => cases h 0
    | cons b bs =>
      cases h 0 with
      | some hab => exact .cons hab (ih fun i => h (i + 1))

/-- Another relation between the partners, which need only follow for members. -/
theorem forall₂_imp_of_mem {S : α → β → Prop} (h : List.Forall₂ R as bs)
    (himp : ∀ a ∈ as, ∀ b, R a b → S a b) : List.Forall₂ S as bs :=
  (forall₂_members h).imp fun a b ⟨ha, _, hab⟩ => himp a ha b hab

/-- Relations that are the same for the members of a list have the same partners for it. -/
theorem forall₂_congr_of_mem {S : α → β → Prop} (h : ∀ a ∈ as, ∀ b, R a b ↔ S a b) :
    List.Forall₂ R as bs ↔ List.Forall₂ S as bs :=
  ⟨fun hR => forall₂_imp_of_mem hR fun a ha b => (h a ha b).mp,
    fun hS => forall₂_imp_of_mem hS fun a ha b => (h a ha b).mpr⟩

theorem forall₂_trans {Q : β → γ → Prop} {S : α → γ → Prop} {cs : List γ}
    (hbs : List.Forall₂ R as bs) (hcs : List.Forall₂ Q bs cs)
    (h : ∀ a b c, R a b → Q b c → S a c) : List.Forall₂ S as cs := by
  induction hbs generalizing cs with
  | nil =>
    obtain rfl := List.forall₂_nil_left_iff.mp hcs
    exact .nil
  | @cons a b as bs hab _ ih =>
    obtain ⟨c, cs', hc, hcs', rfl⟩ := List.forall₂_cons_left_iff.mp hcs
    exact .cons (h a b c hab hc) (ih hcs')

/-- Partners of `as`, once alone and once together with a third list, are partners. -/
theorem forall₂_of_zip {Q : α × γ → δ → Prop} {S : β → δ → Prop} {cs : List γ} {ds : List δ}
    (hbs : List.Forall₂ R as bs) (hlen : cs.length = as.length)
    (hds : List.Forall₂ Q (as.zip cs) ds)
    (h : ∀ a ∈ as, ∀ b c d, R a b → Q (a, c) d → S b d) : List.Forall₂ S bs ds := by
  induction hbs generalizing cs ds with
  | nil =>
    obtain rfl : ds = [] := by simpa using hds
    exact .nil
  | @cons a b as bs hab _ ih =>
    cases cs with
    | nil => simp at hlen
    | cons c cs =>
      obtain ⟨d, ds', hd, hds', rfl⟩ := List.forall₂_cons_left_iff.mp hds
      exact .cons (h a (by simp) b c d hab hd)
        (ih (by simpa using hlen) hds' fun a' ha' => h a' (by simp [ha']))

/-- A choice for each element makes a list of choices. -/
theorem exists_forall₂ {P : α → β → Prop} (h : ∀ a ∈ as, ∃ b, P a b) : ∃ bs, List.Forall₂ P as bs := by
  induction as with
  | nil => exact ⟨[], .nil⟩
  | cons a rest ih =>
    obtain ⟨b, hb⟩ := h a (by simp)
    obtain ⟨bs, hbs⟩ := ih fun a' ha' => h a' (by simp [ha'])
    exact ⟨b :: bs, .cons hb hbs⟩

/-- If each pair of partners leads from what is found for the first to something for the second, then
there is a list of what is found for the second list. -/
theorem exists_following {P : α → γ → Prop} {Q : β → δ → Prop} {S : γ → δ → Prop} {cs : List γ}
    (h : List.Forall₂ R as bs) (hcs : List.Forall₂ P as cs)
    (hstep : ∀ a b c, R a b → P a c → ∃ d, Q b d ∧ S c d) :
    ∃ ds, List.Forall₂ Q bs ds ∧ List.Forall₂ S cs ds := by
  induction h generalizing cs with
  | nil =>
    obtain rfl := List.forall₂_nil_left_iff.mp hcs
    exact ⟨[], .nil, .nil⟩
  | cons hab _ ih =>
    obtain ⟨c, cs', hc, hcs', rfl⟩ := List.forall₂_cons_left_iff.mp hcs
    obtain ⟨d, hd, hcd⟩ := hstep _ _ _ hab hc
    obtain ⟨ds, hds, hcds⟩ := ih hcs'
    exact ⟨d :: ds, .cons hd hds, .cons hcd hcds⟩

theorem forall₂_zip {Q : γ → δ → Prop} {cs : List γ} {ds : List δ} (h : List.Forall₂ R as bs)
    (h' : List.Forall₂ Q cs ds) :
    List.Forall₂ (fun p q => R p.1 q.1 ∧ Q p.2 q.2) (as.zip cs) (bs.zip ds) := by
  induction h generalizing cs ds with
  | nil => exact .nil
  | cons hab _ ih =>
    cases h' with
    | nil => exact .nil
    | cons hcd hrest => exact .cons ⟨hab, hcd⟩ (ih hrest)

end ShapeSchema
