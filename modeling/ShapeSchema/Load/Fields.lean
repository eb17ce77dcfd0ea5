import ShapeSchema.Load.Access

/-!
# Records with known fields

The entries of an object are gone through in order. A known field may stand only once; a key that
is not a known field is passed over together with its value, or refused at once.
-/

namespace ShapeSchema

/-- A field of a record that is being read; `σ` holds what was read so far. -/
structure Field (σ : Type) where
  name : String
  /-- Whether the field has been read. -/
  isSet : σ → Bool
  read : Access → Source → σ → Loaded σ

/-- A field may not stand twice. -/
def onlyOnce (seen : Bool) (name : String) : Loaded Unit :=
  if seen then Loaded.fault (.duplicateField name) else .ok ()

section

variable {σ : Type}

/-- The field of this name, if it is one. It must not have been read before, and where other keys
are refused it must be there. -/
def Field.look (fields : List (Field σ)) (refuse : Bool) (s : σ) (key : String) :
    Loaded (Option (Field σ)) :=
  match fields.find? fun f => f.name = key with
  | some f => do
    onlyOnce (f.isSet s) key
    .ok (some f)
  | none =>
    if refuse then (Loaded.fault (.unknownField key (fields.map Field.name))).under (.key key)
    else .ok none

/-- Read the fields of a record one after the other. -/
def Entries.readFields (access : Access) (fields : List (Field σ)) (refuse : Bool) :
    Entries → σ → Loaded σ
  | .next key value rest, s => do
    let key ← readKey key
    match ← Field.look fields refuse s key with
    | some f =>
      let s ← (f.read access value s).under (.key key)
      rest.readFields access fields refuse s
    | none =>
      value.skip.under (.key key)
      rest.readFields access fields refuse s
  | ending, s => do
    ending.finish fun key => do
      let _ ← Field.look fields refuse s key
      .ok ()
    .ok s

end

end ShapeSchema
