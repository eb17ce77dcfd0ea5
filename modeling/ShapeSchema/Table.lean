/-!
# Ordered tables

A table is a list of key/value entries in the order in which the keys first came. Writing to a key
that is already there changes its value and keeps its place; a new key goes to the end. JSON
objects, schema fragments, the fields of an object description and annotations are all tables.
-/

namespace ShapeSchema

/-- Entries in order. A table that is built by `insert`, `merge` or `ofList` holds each key once. -/
abbrev Table (κ : Type) (β : Type) := List (κ × β)

namespace Table

variable {κ β : Type}

/-- The keys, in order. -/
def keys (t : Table κ β) : List κ := t.map Prod.fst

/-- Every key occurs once. -/
def Distinct (t : Table κ β) : Prop := (keys t).Nodup

variable [DecidableEq κ]

instance (t : Table κ β) : Decidable (Distinct t) :=
  inferInstanceAs (Decidable (keys t).Nodup)

/-- The value stored under `key`. -/
def find? (key : κ) : Table κ β → Option β
  | [] => none
  | (k, v) :: rest => if k = key then some v else find? key rest

/-- Whether `key` has an entry. -/
def contains (key : κ) (t : Table κ β) : Bool := (find? key t).isSome

/-- Store `value` under `key`: in the place the key already has, or else at the end. -/
def insert (key : κ) (value : β) : Table κ β → Table κ β
  | [] => [(key, value)]
  | (k, v) :: rest => if k = key then (k, value) :: rest else (k, v) :: insert key value rest

/-- Store every entry of `patch` in `base`, one after the other. -/
def merge (base patch : Table κ β) : Table κ β :=
  patch.foldl (fun t entry => insert entry.1 entry.2 t) base

/-- The table that results from storing the entries one after the other: of a repeated key the
first place and the last value remain. -/
def ofList (entries : List (κ × β)) : Table κ β := merge [] entries

@[simp] theorem merge_nil (t : Table κ β) : merge t [] = t := rfl

@[simp] theorem merge_cons (t : Table κ β) (k : κ) (v : β) (rest : Table κ β) :
    merge t ((k, v) :: rest) = merge (insert k v t) rest := rfl

@[simp] theorem find?_insert_self (k : κ) (v : β) (t : Table κ β) :
    find? k (insert k v t) = some v := by
  induction t with
  | nil => simp [insert, find?]
  | cons entry rest ih => by_cases h : entry.1 = k <;> simp [insert, find?, h, ih]

theorem find?_insert_ne {k k' : κ} (h : k' ≠ k) (v : β) (t : Table κ β) :
    find? k' (insert k v t) = find? k' t := by
  induction t with
  | nil => simp [insert, find?, Ne.symm h]
  | cons entry rest ih =>
    by_cases hk : entry.1 = k
    · simp [insert, find?, hk, Ne.symm h]
    · by_cases hk' : entry.1 = k'
      · subst hk'
        simp [insert, find?, hk]
      · simp [insert, find?, hk, hk', ih]

end Table

end ShapeSchema
