import ShapeSchema.Load.Choice
import ShapeSchema.Load.Fields
import ShapeSchema.Proofs.Load.Tree
import ShapeSchema.Struct.Metadata

/-!
# Choices and records

What a choice comes from, and what reading the fields of a record preserves.
-/

namespace ShapeSchema

section

variable {α : Type} {access : Access} {variants : List (String × Variant α)} {a : α}

theorem Variant.named_eq_ok {name : String} {variant : Variant α}
    (h : Variant.named variants name = .ok variant) : (name, variant) ∈ variants := by
  rw [Variant.named] at h
  split at h
  · rename_i v hfind
    obtain rfl := Except.ok.inj h
    exact Table.mem_of_find? hfind
  · exact absurd h Loaded.fault_ne_ok

/-- The chosen value is that of a variant without content, or was read as the content of one. -/
def Variant.Offers (variants : List (String × Variant α)) (a : α) : Prop :=
  ∃ name read access content, (name, Variant.holding read) ∈ variants ∧ read access content = .ok a

theorem Entries.readChoice_eq_ok {entries : Entries} (h : entries.readChoice access variants = .ok a) :
    (∃ name, (name, Variant.unit a) ∈ variants) ∨ Variant.Offers variants a := by
  cases entries with
  | next key content rest =>
    obtain ⟨name, -, h⟩ := bind_eq_ok.mp h
    obtain ⟨variant, hvariant, h⟩ := bind_eq_ok.mp h
    obtain ⟨b, hb, h⟩ := bind_eq_ok.mp h
    obtain ⟨_, -, h⟩ := bind_eq_ok.mp h
    obtain rfl := Except.ok.inj h
    have hmem := Variant.named_eq_ok hvariant
    replace hb := Loaded.under_eq_ok.mp hb
    cases variant with
    | unit c =>
      obtain ⟨_, -, hc⟩ := bind_eq_ok.mp hb
      obtain rfl := Except.ok.inj hc
      exact .inl ⟨name, hmem⟩
    | holding read => exact .inr ⟨name, read, access, content, hmem, hb⟩
  | noColon key fault =>
    obtain ⟨name, -, h⟩ := bind_eq_ok.mp h
    obtain ⟨_, -, h⟩ := bind_eq_ok.mp h
    exact absurd h Loaded.fault_ne_ok
  | brokenKey reading skipping => cases h
  | notKey => cases h
  | done ending => cases ending <;> cases h

/-- A choice is a bare name, or an object: then it is at least one level deep. -/
theorem Source.readChoice_eq_ok {v : Source} (h : v.readChoice access variants = .ok a) :
    (∃ name, (name, Variant.unit a) ∈ variants) ∨
      1 ≤ access.bound v.depth ∧ Variant.Offers variants a := by
  cases v with
  | string content =>
    obtain ⟨name, -, h⟩ := bind_eq_ok.mp h
    obtain ⟨variant, hvariant, h⟩ := bind_eq_ok.mp h
    have hmem := Variant.named_eq_ok hvariant
    replace h := Loaded.under_eq_ok.mp h
    cases variant with
    | unit b =>
      obtain rfl := Except.ok.inj h
      exact .inl ⟨name, hmem⟩
    | holding read => cases h
  | record entries =>
    cases access with
    | streamed room =>
      obtain ⟨access', henter, h⟩ := bind_eq_ok.mp h
      have hbound := Access.bound_enter henter entries.depth
      exact (Entries.readChoice_eq_ok h).imp id fun hoffers => ⟨by rw [Source.depth, ← hbound]; omega, hoffers⟩
    | buffered =>
      -- An object in a buffer is counted first, and read only if it has one entry.
      have hdepth : 1 ≤ Access.buffered.bound (Source.record entries).depth :=
        Nat.succ_le_succ (Nat.zero_le entries.depth)
      have hchoice : entries.readChoice .buffered variants = .ok a := by
        simp only [Source.readChoice] at h
        split at h
        · exact h
        · exact absurd h Loaded.fault_ne_ok
      exact (Entries.readChoice_eq_ok hchoice).imp id fun hoffers => ⟨hdepth, hoffers⟩
  | broken opening reading skipping => cases access <;> cases opening <;> cases h
  | null => cases access <;> cases h
  | bool b => cases access <;> cases h
  | number n => cases access <;> cases h
  | list items => cases access <;> cases h

end

section

variable {σ : Type} {access : Access} {fields : List (Field σ)} {refuse : Bool}

theorem Field.mem_of_look {s : σ} {key : String} {f : Field σ}
    (h : Field.look fields refuse s key = .ok (some f)) : f ∈ fields := by
  rw [Field.look] at h
  split at h
  · rename_i g hfind
    obtain ⟨_, -, h⟩ := bind_eq_ok.mp h
    obtain rfl := Option.some.inj (Except.ok.inj h)
    exact List.mem_of_find?_eq_some hfind
  · split at h <;> cases h

/-- What holds of what was read so far, and is kept by reading each field, holds in the end. -/
theorem Entries.readFields_induction {P : σ → Prop} {b : Nat}
    (hstep : ∀ f ∈ fields, ∀ (value : Source) (s s' : σ), value.InRange →
      access.bound value.depth ≤ b → f.read access value s = .ok s' → P s → P s') :
    ∀ (entries : Entries) {s s' : σ}, entries.InRange → access.bound entries.depth ≤ b →
      entries.readFields access fields refuse s = .ok s' → P s → P s'
  | .next key value rest, s, s', hrange, hb, h, hs => by
    obtain ⟨hleft, hright⟩ := Entries.bound_next_le.mp hb
    obtain ⟨name, -, h⟩ := bind_eq_ok.mp h
    obtain ⟨field?, hlook, h⟩ := bind_eq_ok.mp h
    cases field? with
    | some f =>
      obtain ⟨t, ht, h⟩ := bind_eq_ok.mp h
      exact readFields_induction hstep rest hrange.2 hright h
        (hstep f (Field.mem_of_look hlook) value s t hrange.1 hleft (Loaded.under_eq_ok.mp ht) hs)
    | none =>
      obtain ⟨_, -, h⟩ := bind_eq_ok.mp h
      exact readFields_induction hstep rest hrange.2 hright h hs
  | .done ending, s, s', _, _, h, hs => by
    obtain ⟨_, -, h⟩ := bind_eq_ok.mp h
    obtain rfl := Except.ok.inj h
    exact hs
  | .brokenKey reading skipping, s, s', _, _, h, _ => by cases h
  | .notKey, s, s', _, _, h, _ => by cases h
  | .noColon key fault, s, s', _, _, h, hs => by
    obtain ⟨_, -, h⟩ := bind_eq_ok.mp h
    obtain rfl := Except.ok.inj h
    exact hs

/-- An entry that is there only if its value is: the field of its name is read, or nothing. -/
theorem Entries.readFields_presentUnder {key : String} {o : Option Json} {f : Field σ}
    (hfind : (fields.find? fun g => g.name = key) = some f) (rest : List (String × Json)) {s s' : σ}
    (hset : f.isSet s = false) (hread : ∀ v, o = some v → f.read access v.source s = .ok s') :
    (Json.sourceOfEntries (Metadata.presentUnder key o ++ rest)).readFields access fields refuse s =
      (Json.sourceOfEntries rest).readFields access fields refuse (if o.isSome then s' else s) := by
  cases o with
  | none => rfl
  | some v =>
    have hlook : Field.look fields refuse s key = .ok (some f) := by
      rw [Field.look, hfind]
      show (onlyOnce (f.isSet s) key >>= fun _ => _) = _
      rw [hset]
      rfl
    show (Field.look fields refuse s key >>= _) = _
    rw [hlook]
    show ((f.read access v.source s).under (.key key) >>= _) = _
    rw [hread v rfl]
    rfl

end

end ShapeSchema
