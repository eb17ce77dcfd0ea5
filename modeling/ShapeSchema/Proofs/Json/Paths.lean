import Mathlib.Data.List.Forall2
import ShapeSchema.Proofs.Pairs
import ShapeSchema.Proofs.Table
import ShapeSchema.Json.Basic

/-!
# Paths into values

What stands at a path of keys and positions, and two ways in which one value follows another along
all paths: it has nothing that the other has not, nulls under absent keys apart, or it has all that
the other has, nulls apart.
-/

namespace ShapeSchema

namespace Json

/-- A step from a value to one inside it. -/
inductive Step where
  | key (name : String)
  | index (position : Nat)

/-- The value one step further in. -/
def child? : Json → Step → Option Json
  | .object entries, .key name => Table.find? name entries
  | .array items, .index position => items[position]?
  | _, _ => none

/-- The value at a path. -/
def at? (v : Json) : List Step → Option Json
  | [] => some v
  | step :: rest => (v.child? step).bind fun inner => inner.at? rest

theorem at?_nil (v : Json) : v.at? [] = some v := rfl

theorem at?_cons {v x : Json} {step : Step} {rest : List Step} :
    v.at? (step :: rest) = some x ↔ ∃ inner, v.child? step = some inner ∧ inner.at? rest = some x :=
  Option.bind_eq_some_iff

theorem at?_append (v : Json) (front rest : List Step) :
    v.at? (front ++ rest) = (v.at? front).bind fun inner => inner.at? rest := by
  induction front generalizing v with
  | nil => rfl
  | cons step front ih =>
    rw [List.cons_append, at?, at?, Option.bind_assoc]
    exact congrArg _ (funext fun inner => ih inner)

/-- What stands at a path that begins with a key does not depend on the other entries. -/
theorem at?_key (entries : Table String Json) (name : String) (rest : List Step) :
    (Json.object entries).at? (.key name :: rest) =
      (Table.find? name entries).bind fun inner => inner.at? rest := rfl

/-- Nothing stands inside null. -/
theorem at?_null {path : List Step} {x : Json} (h : Json.null.at? path = some x) :
    path = [] ∧ x = .null := by
  cases path with
  | nil => exact ⟨rfl, (Option.some.inj h).symm⟩
  | cons step rest =>
    obtain ⟨inner, hinner, -⟩ := at?_cons.mp h
    cases hinner

/-- Two values are of the same make: the same scalar, two arrays of the same length or two objects. -/
inductive SameMake : Json → Json → Prop
  | null : SameMake .null .null
  | bool (b : Bool) : SameMake (.bool b) (.bool b)
  | number (n : Number) : SameMake (.number n) (.number n)
  | string (s : String) : SameMake (.string s) (.string s)
  | array {xs ys : List Json} (h : xs.length = ys.length) : SameMake (.array xs) (.array ys)
  | object (xs ys : List (String × Json)) : SameMake (.object xs) (.object ys)

theorem SameMake.refl (v : Json) : v.SameMake v := by
  cases v with
  | null => exact .null
  | bool b => exact .bool b
  | number n => exact .number n
  | string s => exact .string s
  | array items => exact .array rfl
  | object entries => exact .object _ _

theorem SameMake.eq_null_iff {v w : Json} (h : v.SameMake w) : v = .null ↔ w = .null := by
  cases h <;> simp

/-- At the path but for its last key there is an object, and it does not have that key. -/
def Lacks (v : Json) (path : List Step) : Prop :=
  ∃ front name entries, path = front ++ [.key name] ∧ v.at? front = some (.object entries) ∧
    name ∉ Table.keys entries

theorem not_lacks_nil (v : Json) : ¬ v.Lacks [] := by
  rintro ⟨front, name, entries, hpath, -⟩
  simp at hpath

theorem Lacks.cons {v inner : Json} {step : Step} {rest : List Step} (h : inner.Lacks rest)
    (hstep : v.child? step = some inner) : v.Lacks (step :: rest) := by
  obtain ⟨front, name, entries, rfl, hat, hname⟩ := h
  exact ⟨step :: front, name, entries, rfl, at?_cons.mpr ⟨inner, hstep, hat⟩, hname⟩

/-! ## Nothing invented -/

/-- At each path the first value is of the make of the second, or null under a key that the second
lacks. -/
def Echoes (w v : Json) : Prop :=
  ∀ path x, w.at? path = some x →
    (∃ y, v.at? path = some y ∧ SameMake y x) ∨ x = .null ∧ v.Lacks path

theorem Echoes.refl (v : Json) : v.Echoes v :=
  fun _ x hx => .inl ⟨x, hx, .refl x⟩

theorem Echoes.sameMake {w v : Json} (h : w.Echoes v) : SameMake v w := by
  rcases h [] w (at?_nil w) with ⟨y, hy, hmake⟩ | ⟨-, hlacks⟩
  · obtain rfl := Option.some.inj hy
    exact hmake
  · exact absurd hlacks (not_lacks_nil v)

/-- It is enough that the values are of the same make and that each value one step inside the first
echoes that of the second, or is null under a key that the second lacks. -/
theorem echoes_of_children {w v : Json} (hmake : SameMake v w)
    (h : ∀ step x, w.child? step = some x → (∃ y, v.child? step = some y ∧ x.Echoes y) ∨
      x = .null ∧ v.Lacks [step]) : w.Echoes v := by
  intro path x hx
  cases path with
  | nil =>
    obtain rfl := Option.some.inj hx
    exact .inl ⟨v, rfl, hmake⟩
  | cons step rest =>
    obtain ⟨inner, hinner, hrest⟩ := at?_cons.mp hx
    rcases h step inner hinner with ⟨y, hy, hechoes⟩ | ⟨rfl, hlacks⟩
    · rcases hechoes rest x hrest with ⟨z, hz, hmake⟩ | ⟨hnull, hlacks⟩
      · exact .inl ⟨z, at?_cons.mpr ⟨y, hy, hz⟩, hmake⟩
      · exact .inr ⟨hnull, hlacks.cons hy⟩
    · obtain ⟨rfl, rfl⟩ := at?_null hrest
      exact .inr ⟨rfl, hlacks⟩

theorem echoes_array {ws vs : List Json} (h : List.Forall₂ Echoes ws vs) :
    (Json.array ws).Echoes (.array vs) := by
  refine echoes_of_children (.array h.length_eq.symm) fun step x hx => ?_
  cases step with
  | key name => cases hx
  | index position =>
    obtain ⟨y, hy, hechoes⟩ := exists_left_of_getElem? h.flip hx
    exact .inl ⟨y, hy, hechoes⟩

theorem echoes_object {out entries : Table String Json}
    (h : ∀ name x, Table.find? name out = some x →
      (∃ y, Table.find? name entries = some y ∧ x.Echoes y) ∨
        x = .null ∧ name ∉ Table.keys entries) :
    (Json.object out).Echoes (.object entries) := by
  refine echoes_of_children (.object _ _) fun step x hx => ?_
  cases step with
  | key name =>
    rcases h name x hx with hfound | ⟨hnull, hname⟩
    · exact .inl hfound
    · exact .inr ⟨hnull, [], name, entries, rfl, rfl, hname⟩
  | index position => cases hx

/-! ## Nothing lost -/

/-- Wherever the second value has something but null, the first has something of its make. -/
def Covers (w v : Json) : Prop :=
  ∀ path y, v.at? path = some y → y ≠ .null → ∃ x, w.at? path = some x ∧ SameMake y x

theorem Covers.refl (v : Json) : v.Covers v :=
  fun _ y hy _ => ⟨y, hy, .refl y⟩

theorem covers_of_children {w v : Json} (hmake : SameMake v w)
    (h : ∀ step y, v.child? step = some y → y ≠ .null →
      ∃ x, w.child? step = some x ∧ x.Covers y) : w.Covers v := by
  intro path y hy hne
  cases path with
  | nil =>
    obtain rfl := Option.some.inj hy
    exact ⟨w, rfl, hmake⟩
  | cons step rest =>
    obtain ⟨inner, hinner, hrest⟩ := at?_cons.mp hy
    have hinner' : inner ≠ .null := by
      rintro rfl
      exact hne (at?_null hrest).2
    obtain ⟨x, hx, hcovers⟩ := h step inner hinner hinner'
    obtain ⟨z, hz, hmake⟩ := hcovers rest y hrest hne
    exact ⟨z, at?_cons.mpr ⟨x, hx, hz⟩, hmake⟩

theorem covers_array {ws vs : List Json} (h : List.Forall₂ Covers ws vs) :
    (Json.array ws).Covers (.array vs) := by
  refine covers_of_children (.array h.length_eq.symm) fun step y hy _ => ?_
  cases step with
  | key name => cases hy
  | index position => exact exists_left_of_getElem? h hy

theorem covers_object {out entries : Table String Json}
    (h : ∀ name y, Table.find? name entries = some y → y ≠ .null →
      ∃ x, Table.find? name out = some x ∧ x.Covers y) :
    (Json.object out).Covers (.object entries) := by
  refine covers_of_children (.object _ _) fun step y hy hne => ?_
  cases step with
  | key name => exact h name y hy hne
  | index position => cases hy

end Json

end ShapeSchema
