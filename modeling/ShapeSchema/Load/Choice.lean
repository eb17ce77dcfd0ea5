import ShapeSchema.Load.Access

/-!
# Choices between named variants

A value of a type with named variants is written as the bare name of a variant without content, or
as an object whose only entry has the name as its key and the content as its value. Where the
content stands elsewhere, the name stands alone.
-/

namespace ShapeSchema

/-- What a variant holds. -/
inductive Variant (α : Type) where
  /-- Nothing: the name alone says it all. -/
  | unit (value : α)
  /-- Content that is read in this way. -/
  | holding (read : Access → Source → Loaded α)

namespace Variant

variable {α : Type}

/-- The value of a variant that is written as its bare name. -/
def bare : Variant α → Loaded α
  | unit value => .ok value
  | holding _ => Loaded.fault (.wrongType .unitVariant "newtype variant")

/-- The value of a variant that is written with content. -/
def withContent (access : Access) (content : Source) : Variant α → Loaded α
  | unit value => do
    content.readUnit access
    .ok value
  | holding read => read access content

/-- The variant of this name. -/
def named (variants : List (String × Variant α)) (name : String) : Loaded (Variant α) :=
  match Table.find? name variants with
  | some v => .ok v
  | none => Loaded.fault (.unknownVariant name (Table.keys variants))

end Variant

section

variable {α : Type}

/-- The end of the object in which a variant stands with its content. -/
def Entries.finishChoice : Entries → Loaded Unit
  | .done .closed => .ok ()
  | .done .cut => Loaded.fault .endInObject
  | _ => Loaded.fault .expectedValue

/-- A variant with its content, from the entries of an object. -/
def Entries.readChoice (access : Access) (variants : List (String × Variant α)) :
    Entries → Loaded α
  | .next key content rest => do
    let name ← Loaded.ofContent key
    let variant ← Variant.named variants name
    let value ← (variant.withContent access content).under (.key name)
    rest.finishChoice
    .ok value
  | .noColon key fault => do
    let name ← Loaded.ofContent key
    let _ ← Variant.named variants name
    Loaded.fault fault
  | .brokenKey reading _ => Loaded.fault reading
  | .notKey => Loaded.fault .keyNotString
  | .done .cut => Loaded.fault .endInObject
  | .done _ => Loaded.fault .expectedValue

/-- Whether there is exactly one entry. -/
def Entries.isSingle : Entries → Bool
  | .next _ _ (.done _) => true
  | _ => false

/-- A value with named variants. What is neither a string nor an object does not even start a
choice when it is read for the first time; read again, it is a value of the wrong type. -/
def Source.readChoice (access : Access) (variants : List (String × Variant α)) :
    Source → Loaded α
  | .string content => do
    let name ← Loaded.ofContent content
    let variant ← Variant.named variants name
    variant.bare.under (.key name)
  | .record entries =>
    match access with
    | .streamed _ => do entries.readChoice (← access.enter) variants
    | .buffered =>
      if entries.isSingle then entries.readChoice access variants
      else Loaded.fault (.wrongValue .map "map with a single key")
  | .broken .nothing reading _ => Loaded.fault reading
  | .broken .string reading _ => Loaded.fault reading
  | v =>
    match access with
    | .streamed _ => Loaded.fault .expectedValue
    | .buffered => Loaded.fault (v.mismatch "string or map")

/-- A variant from its name, which stands apart from the content. Read again, the variant may also
be given by its position among all variants. -/
def Source.readVariant (access : Access) (variants : List (String × Variant α)) :
    Source → Loaded (Variant α)
  | .string content => do Variant.named variants (← Loaded.ofContent content)
  | .number (.ok (.int i)) =>
    if access = .buffered ∧ 0 ≤ i then
      match variants[i.toNat]? with
      | some (_, variant) => .ok variant
      | none => Loaded.fault (.wrongValue (.number (.int i))
          ("variant index 0 <= i < " ++ Nat.repr variants.length))
    else Loaded.fault ((Source.number (.ok (.int i))).mismatch "variant identifier")
  | v => Loaded.fault (v.mismatch "variant identifier")

end

end ShapeSchema
