import ShapeSchema.Proofs.Load.Reader
import ShapeSchema.Proofs.Load.Whole

/-!
# Places in a document

The steps of a path are followed from a value into it: a key leads to a value under that key, a
position to the item there. An error locates what it is about if its path leads somewhere, or if it
goes one step too far: from a bare string to the variant that the string names, whose content is
missing.
-/

namespace ShapeSchema

/-! ## Following paths -/

/-- The item at a position. -/
def Items.at? : Items → Nat → Option Source
  | .done _, _ => none
  | .next value _, 0 => some value
  | .next _ rest, position + 1 => rest.at? position

/-- The value stands under this name, though maybe not alone. -/
def Entries.Has (name : String) (v : Source) : Entries → Prop
  | .next key value rest => (key = .ok name ∧ value = v) ∨ rest.Has name v
  | _ => False

/-- The path leads from a value to one of its parts. -/
inductive Source.LeadsTo : Source → List Step → Source → Prop
  | here (v : Source) : LeadsTo v [] v
  | item {items : Items} {position : Nat} {u w : Source} {path : List Step}
      (hat : items.at? position = some u) (h : LeadsTo u path w) :
      LeadsTo (.list items) (.index position :: path) w
  | entry {entries : Entries} {name : String} {u w : Source} {path : List Step}
      (hhas : entries.Has name u) (h : LeadsTo u path w) :
      LeadsTo (.record entries) (.key name :: path) w

/-- Among these variants, the one of this name has content. -/
def Variant.Holds {α : Type} (variants : List (String × Variant α)) (name : String) : Prop :=
  ∃ read, (name, Variant.holding read) ∈ variants

/-- There is a variant of this name with content, of a literal or of a deprecation mark. -/
def HasContent (name : String) : Prop :=
  Variant.Holds Literal.variants name ∨ Variant.Holds Deprecation.variants name

/-- The path leads to a value; or all of it but the last step leads to a string that names a variant
with content, and the last step is that name. -/
def Source.Locates (v : Source) (path : List Step) : Prop :=
  (∃ w, v.LeadsTo path w) ∨
    ∃ outer name, path = outer ++ [.key name] ∧ HasContent name ∧
      v.LeadsTo outer (.string (.ok name))

/-- The same of a path into a list, from the items at `start` and behind on. -/
def Items.Locates (items : Items) (start : Nat) (path : List Step) : Prop :=
  path = [] ∨ ∃ position u inner, path = .index (start + position) :: inner ∧
    items.at? position = some u ∧ u.Locates inner

/-- The same of a path into an object. -/
def Entries.Locates (entries : Entries) (path : List Step) : Prop :=
  path = [] ∨ ∃ name u inner, path = .key name :: inner ∧ entries.Has name u ∧ u.Locates inner

section

variable {v : Source} {items : Items} {entries : Entries} {key : Except Fault String}
  {start : Nat} {path : List Step}

theorem Source.Locates.here (v : Source) : v.Locates [] := .inl ⟨v, .here v⟩

/-- A bare string locates the variant of its name. -/
theorem Source.Locates.bare {name : String} (h : HasContent name) :
    (Source.string (.ok name)).Locates [.key name] :=
  .inr ⟨[], name, rfl, h, .here _⟩

theorem Items.Locates.first (h : v.Locates path) :
    (Items.next v items).Locates start (.index start :: path) :=
  .inr ⟨0, v, path, rfl, rfl, h⟩

theorem Items.Locates.later (h : items.Locates (start + 1) path) :
    (Items.next v items).Locates start path := by
  rcases h with rfl | ⟨position, u, inner, rfl, hat, h⟩
  · exact .inl rfl
  · exact .inr ⟨position + 1, u, inner, by rw [Nat.add_right_comm, Nat.add_assoc], hat, h⟩

theorem Entries.Locates.first {name : String} (h : v.Locates path) :
    (Entries.next (.ok name) v entries).Locates (.key name :: path) :=
  .inr ⟨name, v, path, rfl, .inl ⟨rfl, rfl⟩, h⟩

theorem Entries.Locates.later (h : entries.Locates path) :
    (Entries.next key v entries).Locates path := by
  rcases h with rfl | ⟨name, u, inner, rfl, hhas, h⟩
  · exact .inl rfl
  · exact .inr ⟨name, u, inner, rfl, .inr hhas, h⟩

theorem Source.Locates.list (h : items.Locates 0 path) : (Source.list items).Locates path := by
  rcases h with rfl | ⟨position, u, inner, rfl, hat, ⟨w, hw⟩ | ⟨outer, name, rfl, hname, hw⟩⟩
  · exact .here _
  · rw [Nat.zero_add]
    exact .inl ⟨w, .item hat hw⟩
  · rw [Nat.zero_add]
    exact .inr ⟨.index position :: outer, name, rfl, hname, .item hat hw⟩

theorem Source.Locates.record (h : entries.Locates path) : (Source.record entries).Locates path := by
  rcases h with rfl | ⟨key, u, inner, rfl, hhas, ⟨w, hw⟩ | ⟨outer, name, rfl, hname, hw⟩⟩
  · exact .here _
  · exact .inl ⟨w, .entry hhas hw⟩
  · exact .inr ⟨.key key :: outer, name, rfl, hname, .entry hhas hw⟩

end

/-! ## Documents that stand in full -/

mutual

/-- The value stands in the text in full, and where a number, a string or a key has no content that is
a fault of syntax. -/
def Source.Sound : Source → Prop
  | .null => True
  | .bool _ => True
  | .number content => SyntaxOnly content
  | .string content => SyntaxOnly content
  | .list items => items.Sound
  | .record entries => entries.Sound
  | .broken _ _ _ => False
termination_by structural v => v

/-- The same of the items of a list. -/
def Items.Sound : Items → Prop
  | .done ending => ending = .closed
  | .next value rest => value.Sound ∧ rest.Sound
termination_by structural items => items

/-- The same of the entries of an object. -/
def Entries.Sound : Entries → Prop
  | .done ending => ending = .closed
  | .next key value rest => SyntaxOnly key ∧ value.Sound ∧ rest.Sound
  | _ => False
termination_by structural entries => entries

end

namespace Source

/-- What stands in a text in full is sound. -/
theorem sound_inherited : Inherited (fun v => v.Whole → v.Sound) (fun items => items.Whole → items.Sound)
    (fun entries => entries.Whole → entries.Sound) where
  null _ := trivial
  bool _ _ := trivial
  number reader bytes h := by
    rcases NumberLiteral.number_of_scan reader bytes with ⟨r, hsyntax, hr⟩ | ⟨reading, skipping, hbroken⟩
    · rw [hr]
      exact hsyntax
    · rw [hbroken] at h
      cases h
  string hsyntax _ := hsyntax
  broken _ _ _ h := nomatch h
  list h := h
  record h := h
  itemsDone _ h := Items.whole_done.mp h
  item hvalue hrest h := ⟨hvalue (Items.whole_next.mp h).1, hrest (Items.whole_next.mp h).2⟩
  entriesDone _ h := Entries.whole_done.mp h
  brokenKey _ _ h := nomatch h
  notKey h := nomatch h
  noColon _ _ h := nomatch h
  entry hkey hvalue hrest h :=
    ⟨hkey, hvalue (Entries.whole_next.mp h).1, hrest (Entries.whole_next.mp h).2⟩

theorem sound_ofBytes {bytes : List UInt8} (h : (ofBytes bytes).Whole) : (ofBytes bytes).Sound :=
  sound_inherited.ofBytesBy .scaled bytes h

end Source

mutual

theorem Source.whole_of_sound : ∀ v : Source, v.Sound → v.Whole
  | .list items, h => Items.whole_of_sound items h
  | .record entries, h => Entries.whole_of_sound entries h
  | .null, _ | .bool _, _ | .number _, _ | .string _, _ => rfl
  | .broken _ _ _, h => h.elim

theorem Items.whole_of_sound : ∀ items : Items, items.Sound → items.Whole
  | .done _, h => Items.whole_done.mpr h
  | .next value rest, h =>
    Items.whole_next.mpr ⟨Source.whole_of_sound value h.1, Items.whole_of_sound rest h.2⟩

theorem Entries.whole_of_sound : ∀ entries : Entries, entries.Sound → entries.Whole
  | .done _, h => Entries.whole_done.mpr h
  | .next _ value rest, h =>
    Entries.whole_next.mpr ⟨Source.whole_of_sound value h.2.1, Entries.whole_of_sound rest h.2.2⟩
  | .brokenKey _ _, h | .notKey, h | .noColon _ _, h => h.elim

end

theorem Items.Sound.at? : ∀ {items : Items} {position : Nat} {v : Source}, items.Sound →
    items.at? position = some v → v.Sound
  | .done _, _, _, _, hat => nomatch hat
  | .next _ _, 0, _, h, hat => Option.some.inj hat ▸ h.1
  | .next _ _, _ + 1, _, h, hat => Items.Sound.at? h.2 hat

theorem Entries.Sound.has {name : String} {v : Source} : ∀ {entries : Entries}, entries.Sound →
    entries.Has name v → v.Sound
  | .next _ _ _, h, hhas => by
    rcases hhas with ⟨-, rfl⟩ | hhas
    · exact h.2.1
    · exact Entries.Sound.has h.2.2 hhas
  | .done _, _, hhas | .brokenKey _ _, _, hhas | .notKey, _, hhas | .noColon _ _, _, hhas => hhas.elim

/-- What a path leads to stands in full if the whole does. -/
theorem Source.LeadsTo.sound {v w : Source} {path : List Step} (h : v.LeadsTo path w) (hv : v.Sound) :
    w.Sound := by
  induction h with
  | here v => exact hv
  | item hat h ih => exact ih (Items.Sound.at? hv hat)
  | entry hhas h ih => exact ih (Entries.Sound.has hv hhas)

/-! ## Whom an outcome blames -/

namespace Loaded

section

variable {α β : Type} {P Q : List Step → Prop} {r : Loaded α} {f : α → Loaded β}

/-- If the outcome is an error in the data, this holds of its path. -/
def Blames (P : List Step → Prop) (r : Loaded α) : Prop :=
  ∀ e, r = .error e → e.fault.category = .data → P e.path

namespace Blames

theorem imp (h : Blames P r) (hPQ : ∀ path, P path → Q path) : Blames Q r :=
  fun e he hdata => hPQ e.path (h e he hdata)

theorem ok {a : α} : Blames P (.ok a : Loaded α) := nofun

theorem fault (h : P []) {fault : Fault} : Blames P (Loaded.fault fault : Loaded α) := by
  rintro _ ⟨⟩ -
  exact h

theorem bind (hr : Blames P r) (hf : ∀ a, r = .ok a → Blames P (f a)) : Blames P (r >>= f) := by
  intro e he hdata
  rcases bind_eq_error.mp he with he | ⟨a, ha, he⟩
  · exact hr e he hdata
  · exact hf a ha e he hdata

theorem under {step : Step} (h : Blames (fun path => P (step :: path)) r) :
    Blames P (r.under step) := by
  intro e he hdata
  obtain ⟨e', he', rfl⟩ := mapError_eq_error.mp he
  exact h e' he' hdata

theorem withoutPath (h : P []) : Blames P r.withoutPath := by
  intro e he _
  obtain ⟨e', -, rfl⟩ := mapError_eq_error.mp he
  exact h

/-- That there are too many levels is not the fault of the data. -/
theorem enter {access : Access} {f : Access → Loaded β} (hf : ∀ access', Blames P (f access')) :
    Blames P (access.enter >>= f) := by
  refine bind ?_ fun access' _ => hf access'
  intro e he hdata
  unfold Access.enter at he
  split at he
  · cases he
  · cases he
    cases hdata
  · cases he

theorem ofContent {content : Except Fault α} (h : SyntaxOnly content) :
    Blames P (Loaded.ofContent content) := by
  cases content with
  | ok a => exact ok
  | error fault =>
    rintro _ ⟨⟩ hdata
    exact absurd hdata (h fault rfl)

end Blames

end

end Loaded

end ShapeSchema
