import ShapeSchema.Schema.Place
import ShapeSchema.Struct.Name

/-!
# Encoding values through a struct

A decoded value is pushed through the shape of a struct, which yields the JSON that the struct
itself would emit, or tells where and why the value does not fit. Metadata plays no part.
-/

namespace ShapeSchema

/-- Why a value does not fit. -/
inductive EncodeReason where
  /-- It is not what the struct of this name describes. -/
  | mismatch (expected : String) (received : Json)
  | dateUnsupported
  /-- A tuple has another number of items. -/
  | wrongLength (expected received : Nat)
  | excessKey (key : String)
  | noVariant (received : Json)

/-- Why and where a value does not fit. -/
structure EncodeError where
  place : Place
  reason : EncodeReason

/-- The outcome of encoding. -/
abbrev Encoded (α : Type) := Except EncodeError α

/-- The text of a reason. -/
def EncodeReason.text : EncodeReason → String
  | mismatch expected received => "Expected " ++ expected ++ ", received " ++ received.compact
  | dateUnsupported => "The Date struct is not supported"
  | wrongLength expected received =>
    "Expected Tuple with " ++ Nat.repr expected ++ " items, received " ++ Nat.repr received
  | excessKey key => "Encountered disallowed excess key \"" ++ key ++ "\" on an object"
  | noVariant received => "Invalid union: no variant accepts " ++ received.compact

namespace EncodeError

/-- The same error, seen from one step further out. -/
def under (step : String) (e : EncodeError) : EncodeError := { e with place := step :: e.place }

/-- The message of the error. -/
def message (e : EncodeError) : String :=
  "Failed serializing at " ++ e.place.text ++ ". Reason: " ++ e.reason.text

end EncodeError

namespace Encoded

variable {α : Type}

/-- Fail right here. -/
def fail (reason : EncodeReason) : Encoded α := .error ⟨[], reason⟩

/-- A result that belongs one step further in. -/
def under (step : String) (r : Encoded α) : Encoded α := r.mapError (.under step)

end Encoded

/-- Whether the value is the literal. A floating point literal is compared with the number as a
double, a whole-number literal only with whole numbers. -/
def Literal.admits : Literal → Json → Bool
  | .null, v => v.isNull
  | .string s, .string t => s == t
  | .int i, .number n => n.toInt64? == some i
  | .float x, .number n => x.numEq (.finite n.toDouble)
  | .bool a, .bool b => a == b
  | _, _ => false

/-- Whether the value is one of those that the leaf describes. -/
def Leaf.admits : Leaf → Json → Bool
  | .unknown, _ => true
  | .string, .string _ => true
  | .int, .number n => n.toInt64?.isSome
  | .float, .number _ => true
  | .bool, .bool _ => true
  | .literal l, v => l.admits v
  | _, _ => false

/-- A value that a leaf admits is passed on as it is. -/
def Leaf.encode (l : Leaf) (v : Json) : Encoded Json :=
  match l with
  | .date => .fail .dateUnsupported
  | l => if l.admits v then .ok v else .fail (.mismatch l.name v)

/-- Whether the struct is an option. -/
def Struct.isOption : Struct → Bool
  | .mk (.wrapper .option _) _ => true
  | _ => false

/-- What an object does with the entries that it does not declare: nothing, or they are added to
what it emits, in their order. -/
def UnknownKeys.encodeExcess (policy : UnknownKeys) (excess : List (String × Json))
    (out : Table String Json) : Encoded (Table String Json) :=
  match policy, excess with
  | .strict, (key, _) :: _ => .fail (.excessKey key)
  | .passthrough, excess => .ok (Table.merge out excess)
  | _, _ => .ok out

/-- Every value through `encode`; a failure is reported at the position, counted from `position`. -/
def encodeAll (encode : Json → Encoded Json) : Nat → List Json → Encoded (List Json)
  | _, [] => .ok []
  | position, v :: rest => do
    let w ← (encode v).under (Nat.repr position)
    .ok (w :: (← encodeAll encode (position + 1) rest))

/-- Every entry's value through `encode`; a failure is reported at the key. -/
def encodeEntries (encode : Json → Encoded Json) :
    List (String × Json) → Encoded (Table String Json)
  | [] => .ok []
  | (key, v) :: rest => do
    let w ← (encode v).under key
    .ok ((key, w) :: (← encodeEntries encode rest))

namespace Struct

mutual

/-- The JSON that the struct emits for a value. -/
def encode : Struct → Json → Encoded Json
  | .mk (.leaf l) _, v => l.encode v
  | .mk (.wrapper .option inner) _, v => if v.isNull then .ok .null else inner.encode v
  | .mk (.wrapper .nullable inner) _, v => if v.isNull then .ok .null else inner.encode v
  | .mk (.wrapper .array inner) m, v =>
    match v with
    | .array items => do .ok (.array (← encodeAll inner.encode 0 items))
    | v => .fail (.mismatch (Struct.mk (.wrapper .array inner) m).name v)
  | .mk (.wrapper .dict inner) m, v =>
    match v with
    | .object entries => do .ok (.object (← encodeEntries inner.encode entries))
    | v => .fail (.mismatch (Struct.mk (.wrapper .dict inner) m).name v)
  | .mk (.series .tuple items) m, v =>
    match v with
    | .array values =>
      if values.length ≠ items.length then .fail (.wrongLength items.length values.length)
      else do .ok (.array (← encodeTuple items 0 values))
    | v => .fail (.mismatch (Struct.mk (.series .tuple items) m).name v)
  | .mk (.series .union variants) _, v =>
    match encodeUnion variants v with
    | some w => .ok w
    | none => .fail (.noVariant v)
  | .mk (.object fields policy) m, v =>
    match v with
    | .object entries => do
      let out ← encodeFields fields entries []
      .ok (.object (← policy.encodeExcess
        (entries.filter fun entry => !Table.contains entry.1 fields) out))
    | v => .fail (.mismatch (Struct.mk (.object fields policy) m).name v)
termination_by structural s => s

/-- Several values, each through the struct at its position. -/
def encodeTuple : List Struct → Nat → List Json → Encoded (List Json)
  | s :: rest, position, v :: values => do
    let w ← (s.encode v).under (Nat.repr position)
    .ok (w :: (← encodeTuple rest (position + 1) values))
  | _, _, _ => .ok []
termination_by structural ss => ss

/-- What the first variant that accepts the value emits. -/
def encodeUnion : List Struct → Json → Option Json
  | [], _ => none
  | s :: rest, v =>
    match s.encode v with
    | .ok w => some w
    | .error _ => encodeUnion rest v
termination_by structural ss => ss

/-- The declared fields in their order, added to what is emitted; an absent field is read as null,
and an option that emits null is left out. -/
def encodeFields : List (String × Struct) → Table String Json → Table String Json →
    Encoded (Table String Json)
  | [], _, out => .ok out
  | (name, s) :: rest, entries, out => do
    let w ← (s.encode ((Table.find? name entries).getD .null)).under name
    encodeFields rest entries (if w.isNull && s.isOption then out else Table.insert name w out)
termination_by structural fields => fields

end

end Struct

end ShapeSchema
