import ShapeSchema.Proofs.Json.Equality
import ShapeSchema.Proofs.Schema.Lowering

/-!
# Where the names of required fields stand

The schema of an object lists the names of its required fields in the order of the fields. The places
of these lists in the schema of a struct can be told from the struct, and `Json.SameBut` is equality of
values up to the order of the names at such places.
-/

namespace ShapeSchema

/-! ## Where required names stand -/

/-- The keywords that lead from the schema of a wrapper to the one inside. -/
def Wrapper.steps : Wrapper → Place
  | .option => []
  | .nullable => ["anyOf", Nat.repr 0]
  | .array => ["items"]
  | .dict => ["additionalProperties"]

/-- The keyword that leads from the schema of a series to those of its items. -/
def Series.keyword : Series → String
  | .tuple => "items"
  | .union => "anyOf"

namespace Struct

/-- What stands at the place in the schema of the struct comes from its override. -/
def overrides (s : Struct) : Place → Bool
  | [] => false
  | keyword :: _ => Table.contains keyword (overridePatch (s.annotated? overrideId))

mutual

/-- The places in the schema of a struct at which objects emit the names of their required fields. -/
def requiredPlaces : Struct → List Place
  | .mk shape m =>
    (requiredPlacesOfShape shape).filter fun place => !(Struct.mk shape m).overrides place
termination_by structural s => s

/-- The places in the schema of a shape. -/
def requiredPlacesOfShape : Shape Struct → List Place
  | .leaf _ => []
  | .wrapper w inner => (requiredPlaces inner).map (w.steps ++ ·)
  | .series k items => (requiredPlacesOfItems items 0).map (k.keyword :: ·)
  | .object fields _ => ["required"] :: (requiredPlacesOfFields fields).map ("properties" :: ·)
termination_by structural shape => shape

/-- The places in the schemas of items, from the given position on. -/
def requiredPlacesOfItems : List Struct → Nat → List Place
  | [], _ => []
  | s :: rest, position =>
    (requiredPlaces s).map (Nat.repr position :: ·) ++ requiredPlacesOfItems rest (position + 1)
termination_by structural items => items

/-- The places in the schemas of fields. -/
def requiredPlacesOfFields : List (String × Struct) → List Place
  | [] => []
  | (name, s) :: rest => (requiredPlaces s).map (name :: ·) ++ requiredPlacesOfFields rest
termination_by structural fields => fields

end

theorem mem_requiredPlaces {s : Struct} {place : Place} : place ∈ s.requiredPlaces ↔
    place ∈ requiredPlacesOfShape s.shape ∧ s.overrides place = false := by
  obtain ⟨shape, m⟩ := s
  show place ∈ (requiredPlacesOfShape shape).filter _ ↔ _
  simp [Struct.shape]

section

variable {s : Struct} {place : Place} (h : place ∈ s.requiredPlaces)

include h

theorem mem_requiredPlaces_wrapper (w : Wrapper) :
    w.steps ++ place ∈ requiredPlacesOfShape (.wrapper w s) :=
  List.mem_map_of_mem h

theorem mem_requiredPlacesOfItems {items : List Struct} {i : Nat} (hs : items[i]? = some s)
    (position : Nat) :
    Nat.repr (position + i) :: place ∈ requiredPlacesOfItems items position := by
  induction items generalizing i position with
  | nil => simp at hs
  | cons first rest ih =>
    rw [requiredPlacesOfItems]
    cases i with
    | zero =>
      obtain rfl : first = s := Option.some.inj hs
      exact List.mem_append_left _ (List.mem_map_of_mem h)
    | succ i =>
      have hrest := ih hs (position + 1)
      rw [Nat.add_right_comm] at hrest
      exact List.mem_append_right _ hrest

theorem mem_requiredPlaces_series (k : Series) {items : List Struct} {i : Nat}
    (hs : items[i]? = some s) :
    k.keyword :: Nat.repr i :: place ∈ requiredPlacesOfShape (.series k items) := by
  have hitems := mem_requiredPlacesOfItems h hs 0
  rw [Nat.zero_add] at hitems
  exact List.mem_map_of_mem hitems

theorem mem_requiredPlaces_object {fields : List (String × Struct)} {name : String}
    (hs : (name, s) ∈ fields) (policy : UnknownKeys) :
    "properties" :: name :: place ∈ requiredPlacesOfShape (.object fields policy) := by
  refine List.mem_cons_of_mem _ (List.mem_map_of_mem ?_)
  induction fields with
  | nil => simp at hs
  | cons field rest ih =>
    obtain ⟨name', t⟩ := field
    rw [requiredPlacesOfFields]
    rcases List.mem_cons.mp hs with heq | hs
    · obtain ⟨rfl, rfl⟩ := Prod.mk.inj heq
      exact List.mem_append_left _ (List.mem_map_of_mem h)
    · exact List.mem_append_right _ (ih hs)

end

end Struct

/-! ## Equality but for the order of some names -/

/-- Equality of values, up to the order of entries and, at the given places, the order of names in
an array. -/
inductive Json.SameBut : (Place → Prop) → Json → Json → Prop
  | same {free : Place → Prop} {v w : Json} (h : v.Same w) : SameBut free v w
  | names {free : Place → Prop} {names names' : List String} (here : free [])
      (h : names.Perm names') :
      SameBut free (.array (names.map .string)) (.array (names'.map .string))
  | array {free : Place → Prop} {xs ys : List Json} (hlength : xs.length = ys.length)
      (h : ∀ (i : Nat) v w, xs[i]? = some v → ys[i]? = some w →
        SameBut (fun place => free (Nat.repr i :: place)) v w) :
      SameBut free (.array xs) (.array ys)
  | object {free : Place → Prop} {xs ys : Table String Json}
      (hkeys : (Table.keys xs).Perm (Table.keys ys))
      (h : ∀ key v w, Table.find? key xs = some v → Table.find? key ys = some w →
        SameBut (fun place => free (key :: place)) v w) :
      SameBut free (.object xs) (.object ys)

/-- The same of the entries of two fragments. -/
abbrev Fragment.AgreeBut (free : Place → Prop) (f g : Fragment) : Prop :=
  Table.Agree (fun keyword => Json.SameBut fun place => free (keyword :: place)) f g

namespace Json.SameBut

variable {free free' : Place → Prop} {v w : Json}

theorem mono (h : SameBut free v w) (hfree : ∀ place, free place → free' place) :
    SameBut free' v w := by
  induction h generalizing free' with
  | same h => exact .same h
  | names here h => exact .names (hfree _ here) h
  | array hlength _ ih => exact .array hlength fun i v w hv hw => ih i v w hv hw fun _ => hfree _
  | object hkeys _ ih =>
    exact .object hkeys fun key v w hv hw => ih key v w hv hw fun _ => hfree _

theorem of_agree {f g : Fragment} (hf : Table.Distinct f) (hg : Table.Distinct g)
    (h : Fragment.AgreeBut free f g) : SameBut free (.object f) (.object g) := by
  refine .object (h.keys_perm hf hg) fun key v w hv hw => ?_
  obtain ⟨w', hw', hvw⟩ := h.find?_eq_some hv
  rw [hw] at hw'
  obtain rfl : w = w' := Option.some.inj hw'
  exact hvw

end Json.SameBut

end ShapeSchema
