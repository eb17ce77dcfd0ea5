import Mathlib.Data.List.Basic
import ShapeSchema.Proofs.Struct.Parts

/-!
# Walks over a struct

A walk notes something on the way down to each struct and something on the way up. With notes on one
of the two ways only, it lists the structs in preorder or in postorder.
-/

namespace ShapeSchema

namespace Struct

section

variable {α β : Type} (enter leave : Nat → Struct → List α)

mutual

/-- A walk over the struct and all structs inside it: something is noted on coming to a struct, and
something on leaving it, when all inside it is done. -/
def walk : Struct → Nat → List α
  | .mk shape m, depth =>
    enter depth (.mk shape m) ++ walkShape shape (depth + 1) ++ leave depth (.mk shape m)
termination_by structural s => s

/-- A walk over the structs inside a shape. -/
def walkShape : Shape Struct → Nat → List α
  | .leaf _, _ => []
  | .wrapper _ inner, depth => walk inner depth
  | .series _ items, depth => walkItems items depth
  | .object fields _, depth => walkFields fields depth
termination_by structural shape => shape

/-- A walk over one struct after the other. -/
def walkItems : List Struct → Nat → List α
  | [], _ => []
  | s :: rest, depth => walk s depth ++ walkItems rest depth
termination_by structural items => items

/-- A walk over the structs of the fields, one after the other. -/
def walkFields : List (String × Struct) → Nat → List α
  | [], _ => []
  | (_, s) :: rest, depth => walk s depth ++ walkFields rest depth
termination_by structural fields => fields

end

theorem walkItems_eq (items : List Struct) (depth : Nat) :
    walkItems enter leave items depth = items.flatMap (walk enter leave · depth) := by
  induction items with
  | nil => rfl
  | cons s rest ih => exact congrArg (walk enter leave s depth ++ ·) ih

theorem walkFields_eq (fields : List (String × Struct)) (depth : Nat) :
    walkFields enter leave fields depth =
      (fields.map Prod.snd).flatMap (walk enter leave · depth) := by
  induction fields with
  | nil => rfl
  | cons field rest ih => exact congrArg (walk enter leave field.2 depth ++ ·) ih

/-- A walk comes to the struct, goes over its parts in their order, and leaves the struct. -/
theorem walk_eq (s : Struct) (depth : Nat) :
    s.walk enter leave depth = enter depth s ++
      s.shape.parts.flatMap (walk enter leave · (depth + 1)) ++ leave depth s := by
  obtain ⟨shape, m⟩ := s
  show _ ++ walkShape enter leave shape (depth + 1) ++ _ = _
  congr 2
  cases shape with
  | leaf l => rfl
  | wrapper w inner => exact (List.append_nil _).symm
  | series k items => exact walkItems_eq enter leave items _
  | object fields policy => exact walkFields_eq enter leave fields _

/-- To look at some of the notes of a walk is to take a walk with other notes. -/
theorem filterMap_walk (f : α → Option β) (s : Struct) (depth : Nat) :
    (s.walk enter leave depth).filterMap f =
      s.walk (fun depth t => (enter depth t).filterMap f)
        (fun depth t => (leave depth t).filterMap f) depth := by
  induction s using Struct.induction_parts generalizing depth with
  | step s ih =>
    have hparts : (s.shape.parts.flatMap (walk enter leave · (depth + 1))).filterMap f =
        s.shape.parts.flatMap (walk (fun depth t => (enter depth t).filterMap f)
          (fun depth t => (leave depth t).filterMap f) · (depth + 1)) := by
      rw [List.filterMap_flatMap]
      exact List.flatMap_congr fun t ht => ih t ht _
    rw [walk_eq, walk_eq, List.filterMap_append, List.filterMap_append, hparts]

end

/-- The structs with their depths, each in front of those inside it. -/
def preorder (s : Struct) : List (Nat × Struct) :=
  s.walk (fun depth t => [(depth, t)]) (fun _ _ => []) 0

/-- The structs, each behind those inside it. -/
def postorder (s : Struct) : List Struct := s.walk (fun _ _ => []) (fun _ t => [t]) 0

end Struct

end ShapeSchema
