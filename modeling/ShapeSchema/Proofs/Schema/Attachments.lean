import ShapeSchema.Proofs.Schema.Annotations
import ShapeSchema.Proofs.Schema.Meaning

/-!
# What a series of annotations comes to

Deprecation marks, defaults, overrides and descriptions are attached to a struct one call after the
other, and an override is merged into the one before at once. The node that results is the one that
`Struct.replay` puts together from the last mark, the last default and all patches, each merged
alone and in a fixed order.
-/

namespace ShapeSchema

/-- A call that attaches something to a struct. A patch has each keyword once. -/
inductive Attachment where
  | deprecated
  | deprecatedWithMessage (message : String)
  | default (value : Json)
  | override (patch : Fragment) (distinct : Table.Distinct patch)
  | describe (text : String)

namespace Attachment

/-- The struct after the call. -/
def attachTo : Attachment → Struct → Struct
  | deprecated, s => s.deprecated
  | deprecatedWithMessage message, s => s.deprecatedWithMessage message
  | default value, s => s.withDefault value
  | override patch _, s => s.override patch
  | describe text, s => s.describe text

/-- The deprecation mark that the call sets. -/
def mark? : Attachment → Option Deprecation
  | deprecated => some .flagged
  | deprecatedWithMessage message => some (.withMessage message)
  | _ => none

/-- The default that the call sets. -/
def default? : Attachment → Option Json
  | default value => some value
  | _ => none

/-- The patch that the call merges into the override; a description is a patch of one keyword. -/
def patch? : Attachment → Option Fragment
  | override patch _ => some patch
  | describe text => some [("description", .string text)]
  | _ => none

theorem distinct_of_patch? {call : Attachment} {patch : Fragment} (h : call.patch? = some patch) :
    Table.Distinct patch := by
  cases call with
  | override p hp =>
    obtain rfl : p = patch := Option.some.inj h
    exact hp
  | describe text =>
    obtain rfl := Option.some.inj h
    simp [Table.Distinct]
  | _ => cases h

end Attachment

namespace Struct

/-- The struct after some calls, the first of them first. -/
def attach (s : Struct) (calls : List Attachment) : Struct :=
  calls.foldl (fun s call => call.attachTo s) s

/-- The last mark that the calls set, or else the one that is there. -/
def markAfter (s : Struct) (calls : List Attachment) : Option Deprecation :=
  (calls.filterMap Attachment.mark?).getLast?.or s.deprecation

/-- The last default that the calls set, or else the one that is there. -/
def defaultAfter (s : Struct) (calls : List Attachment) : Option Json :=
  (calls.filterMap Attachment.default?).getLast?.or s.defaultValue

/-- The struct without anything attached. -/
def bare (s : Struct) : Struct := .mk s.shape {}

/-- A default as the struct emits it, if there is one. -/
def emittedDefault (s : Struct) : Option Json → Except ConversionError (Option Json)
  | none => .ok none
  | some value => ((s.encode value).mapError fun e => .here (.badDefault e.message)).map some

/-- The node of a struct with this mark, this default and these patches: the node of the bare struct,
and merged into it one after the other the mark, the default as the struct emits it, the override
that the struct has if that is an object, and the patches. -/
def replay (config : Config) (s : Struct) (mark : Option Deprecation) (default : Option Json)
    (patches : List Fragment) : Except ConversionError Node := do
  let base ← (s.bare.node config).result
  let emitted ← s.emittedDefault default
  .ok ⟨([(mark.map Fragment.ofDeprecation).getD [], (emitted.map Fragment.defaultValue).getD [],
      overridePatch (s.annotated? overrideId)] ++ patches).foldl Table.merge base.schema,
    base.required && default.isNone⟩

/-! ## The metadata after the calls -/

/-- The annotations with a patch merged into the override. -/
def patchOverride (annotations : Table MetadataId Json) (patch : Fragment) :
    Table MetadataId Json :=
  Table.insert overrideId (.object (match Table.find? overrideId annotations with
    | some (.object present) => Table.merge present patch
    | _ => patch)) annotations

/-- What one call does: each kind of calls has its own part of the metadata. -/
theorem attachTo_eq (call : Attachment) (s : Struct) :
    call.attachTo s = .mk s.shape
      { deprecation := call.mark?.or s.deprecation
        default := call.default?.or s.defaultValue
        annotations := call.patch?.toList.foldl patchOverride s.metadata.annotations } := by
  obtain ⟨shape, m⟩ := s
  cases call <;> rfl

theorem getLast?_filterMap_cons {α β : Type} (f : α → Option β) (a : α) (rest : List α)
    (before : Option β) :
    ((a :: rest).filterMap f).getLast?.or before =
      (rest.filterMap f).getLast?.or ((f a).or before) := by
  cases hfa : f a with
  | none => simp [hfa]
  | some b =>
    rw [List.filterMap_cons_some hfa, List.getLast?_cons]
    cases (rest.filterMap f).getLast? <;> rfl

/-- What a series of calls does. -/
theorem attach_eq (s : Struct) (calls : List Attachment) :
    s.attach calls = .mk s.shape
      { deprecation := s.markAfter calls
        default := s.defaultAfter calls
        annotations := (calls.filterMap Attachment.patch?).foldl patchOverride
          s.metadata.annotations } := by
  induction calls generalizing s with
  | nil =>
    obtain ⟨shape, m⟩ := s
    rfl
  | cons call rest ih =>
    have hpatches : (call :: rest).filterMap Attachment.patch? =
        call.patch?.toList ++ rest.filterMap Attachment.patch? := by
      cases hpatch : call.patch? <;> simp [hpatch]
    show (call.attachTo s).attach rest = _
    rw [ih, attachTo_eq, markAfter, markAfter, defaultAfter, defaultAfter,
      getLast?_filterMap_cons, getLast?_filterMap_cons, hpatches, List.foldl_append]
    rfl

/-! ## The override after the calls -/

/-- Merging what the override has become is merging the old one and then the patches. -/
theorem merge_patchOverride {patches : List Fragment} {annotations : Table MetadataId Json}
    (hpatches : ∀ patch ∈ patches, Table.Distinct patch)
    (hold : Table.Distinct (overridePatch (Table.find? overrideId annotations)))
    (base : Fragment) :
    Table.merge base
        (overridePatch (Table.find? overrideId (patches.foldl patchOverride annotations))) =
      patches.foldl Table.merge
        (Table.merge base (overridePatch (Table.find? overrideId annotations))) := by
  induction patches generalizing annotations with
  | nil => rfl
  | cons patch rest ih =>
    obtain ⟨hpatch, hrest⟩ := List.forall_mem_cons.mp hpatches
    have hnew : overridePatch (Table.find? overrideId (patchOverride annotations patch)) =
        Table.merge (overridePatch (Table.find? overrideId annotations)) patch := by
      rw [patchOverride, Table.find?_insert_self]
      split
      · rename_i present h
        rw [h]
        rfl
      · rename_i h
        have hnone : overridePatch (Table.find? overrideId annotations) = [] := by
          rw [overridePatch.eq_def]
          split
          · rename_i present hpresent
            exact absurd hpresent (h present)
          · rfl
        rw [hnone]
        exact hpatch.ofList_eq.symm
    rw [List.foldl_cons, List.foldl_cons, ih hrest (hnew ▸ Table.distinct_merge hold), hnew,
      Table.merge_merge hold]

/-! ## Replaying the calls -/

theorem result_node_bare (config : Config) (s : Struct) :
    (s.bare.node config).result = (lowerShape config.maxDepth s.shape 1).result := by
  have hdefault : s.bare.encodedDefault = .ok none := rfl
  have hpatch : s.bare.patch none = [] := rfl
  rw [node, result_lower, if_neg (Nat.not_lt_zero _), hdefault]
  show (lowerShape config.maxDepth s.shape 1).result >>= _ = _
  cases (lowerShape config.maxDepth s.shape 1).result with
  | ok base => simp [hpatch]
  | error e => rfl

/-- Structs of one shape encode alike. -/
theorem encode_eq_of_shape {s t : Struct} (h : s.shape = t.shape) : s.encode = t.encode := by
  obtain ⟨shape, m⟩ := s
  obtain ⟨shape', m'⟩ := t
  obtain rfl : shape = shape' := h
  rw [← encode_eachMetadata (f := fun _ => {}) (.mk shape m),
    ← encode_eachMetadata (f := fun _ => {}) (.mk shape m')]
  rfl

/-- What the metadata adds after the calls, merged piece by piece. -/
theorem merge_patch_attach {s : Struct} (hs : s.WellFormed) (calls : List Attachment)
    (base : Fragment) (encoded : Option Json) :
    Table.merge base ((s.attach calls).patch encoded) =
      ([((s.markAfter calls).map Fragment.ofDeprecation).getD [],
        (encoded.map Fragment.defaultValue).getD [], overridePatch (s.annotated? overrideId)] ++
          calls.filterMap Attachment.patch?).foldl Table.merge base := by
  have hpatches : ∀ patch ∈ calls.filterMap Attachment.patch?, Table.Distinct patch := by
    intro patch hpatch
    obtain ⟨call, -, hcall⟩ := List.mem_filterMap.mp hpatch
    exact Attachment.distinct_of_patch? hcall
  have hoverride := merge_patchOverride hpatches hs.distinct_override
  rw [attach_eq, patch, Table.merge_append, Table.merge_append, List.foldl_append]
  exact hoverride _

theorem encodedDefault_eq (s : Struct) : s.encodedDefault = s.emittedDefault s.defaultValue := by
  rw [encodedDefault]
  cases s.defaultValue with
  | none => rfl
  | some value =>
    rw [emittedDefault]
    dsimp only
    cases s.encode value <;> rfl

theorem emittedDefault_eq_of_shape {s t : Struct} (h : s.shape = t.shape) (default : Option Json) :
    s.emittedDefault default = t.emittedDefault default := by
  cases default with
  | none => rfl
  | some value => rw [emittedDefault, emittedDefault, encode_eq_of_shape h]

theorem emittedDefault_eq_ok {s : Struct} {default emitted : Option Json}
    (h : s.emittedDefault default = .ok emitted) : emitted.isNone = default.isNone := by
  cases default with
  | none =>
    obtain rfl : none = emitted := Except.ok.inj h
    rfl
  | some value =>
    rw [emittedDefault] at h
    cases hvalue : s.encode value with
    | error e =>
      rw [hvalue] at h
      cases h
    | ok w =>
      rw [hvalue] at h
      obtain rfl : some w = emitted := Except.ok.inj h
      rfl

/-- **The node after some calls.** -/
theorem result_node_attach (config : Config) {s : Struct} (hs : s.WellFormed)
    (calls : List Attachment) :
    ((s.attach calls).node config).result = s.replay config (s.markAfter calls)
      (s.defaultAfter calls) (calls.filterMap Attachment.patch?) := by
  have hshape : (s.attach calls).shape = s.shape := by
    rw [attach_eq]
    rfl
  have hdefault : (s.attach calls).defaultValue = s.defaultAfter calls := by
    rw [attach_eq]
    rfl
  rw [replay, result_node_bare, node, result_lower, if_neg (Nat.not_lt_zero _), hshape,
    encodedDefault_eq, hdefault, emittedDefault_eq_of_shape hshape]
  refine congrArg (_ >>= ·) (funext fun base => ?_)
  cases hemitted : s.emittedDefault (s.defaultAfter calls) with
  | error e => rfl
  | ok emitted =>
    rw [ok_bind, ok_bind, merge_patch_attach hs, emittedDefault_eq_ok hemitted]

/-- An error is that of the bare struct, or else of the default. -/
theorem replay_eq_error {config : Config} {s : Struct} {mark : Option Deprecation}
    {default : Option Json} {patches : List Fragment} {e : ConversionError} :
    s.replay config mark default patches = .error e ↔
      (s.bare.node config).result = .error e ∨
        (∃ base, (s.bare.node config).result = .ok base) ∧ s.emittedDefault default = .error e := by
  rw [replay]
  cases (s.bare.node config).result with
  | error e' => simp
  | ok base => cases s.emittedDefault default <;> simp

/-- A last patch is merged into the node that there is without it. -/
theorem replay_concat (config : Config) (s : Struct) (mark : Option Deprecation)
    (default : Option Json) (patches : List Fragment) (patch : Fragment) :
    s.replay config mark default (patches ++ [patch]) =
      (s.replay config mark default patches).map fun node =>
        { node with schema := Table.merge node.schema patch } := by
  rw [replay, replay]
  cases (s.bare.node config).result with
  | error e => rfl
  | ok base =>
    cases s.emittedDefault default with
    | error e => rfl
    | ok emitted =>
      rw [ok_bind, ok_bind, ← List.append_assoc, List.foldl_concat]
      rfl

/-- The document says its dialect first, and then all of the root but what that says of a dialect. -/
theorem document_eq {root : Fragment} (hroot : Table.Distinct root) :
    Fragment.document root = ("$schema", .string Fragment.dialect) ::
      root.filter fun entry => entry.1 ≠ "$schema" := by
  have hfirst : ∃ v, Table.merge (("$schema", Json.string Fragment.dialect) :: []) root =
      ("$schema", v) :: ([] ++ root.filter fun entry => entry.1 ≠ "$schema") :=
    Table.merge_first (by simp) hroot (by simp)
  obtain ⟨v, hv⟩ := hfirst
  rw [Fragment.document, hv]
  rfl

theorem documentWith_attach (config : Config) {s : Struct} (hs : s.WellFormed)
    (calls : List Attachment) :
    (s.attach calls).documentWith config =
      s.replay config (s.markAfter calls) (s.defaultAfter calls)
        (calls.filterMap Attachment.patch?) >>= fun node =>
      if node.required then
        .ok (.object (("$schema", .string Fragment.dialect) ::
          node.schema.filter fun entry => entry.1 ≠ "$schema"))
      else .error (.here .optionalRoot) := by
  rw [documentWith_eq, ← result_node_attach config hs, node]
  cases hnode : ((s.attach calls).lower config.maxDepth 0).result with
  | error e => rfl
  | ok node =>
    show (documentOf node).result = if node.required then _ else _
    rw [result_documentOf, document_eq (distinct_lower hnode)]

end Struct

/-- **Replaying annotations.** After any calls that attach something to a struct, in any order, the struct
is lowered as the last mark, the last default and all patches say, merged one by one into the node
of the bare struct. So an error depends on the default alone; calls of different kinds may be
exchanged; overriding a struct is merging a patch into its node; and a document starts with its
dialect and goes on with the merged schema. -/
theorem attachments_replayed (s : Struct) (hs : s.WellFormed) (config : Config) :
    (∀ calls, ((s.attach calls).node config).result = s.replay config (s.markAfter calls)
      (s.defaultAfter calls) (calls.filterMap Attachment.patch?)) ∧
    (∀ calls calls', s.defaultAfter calls = s.defaultAfter calls' → ∀ e,
      ((s.attach calls).node config).result = .error e ↔
        ((s.attach calls').node config).result = .error e) ∧
    (∀ calls calls', calls.filterMap Attachment.mark? = calls'.filterMap Attachment.mark? →
      calls.filterMap Attachment.default? = calls'.filterMap Attachment.default? →
      calls.filterMap Attachment.patch? = calls'.filterMap Attachment.patch? →
      s.attach calls = s.attach calls') ∧
    (∀ patch, Table.Distinct patch → ((s.override patch).node config).result =
      (s.node config).result.map fun node =>
        { node with schema := Table.merge node.schema patch }) ∧
    ∀ calls, (s.attach calls).documentWith config =
      s.replay config (s.markAfter calls) (s.defaultAfter calls)
        (calls.filterMap Attachment.patch?) >>= fun node =>
      if node.required then
        .ok (.object (("$schema", .string Fragment.dialect) ::
          node.schema.filter fun entry => entry.1 ≠ "$schema"))
      else .error (.here .optionalRoot) := by
  refine ⟨s.result_node_attach config hs, fun calls calls' hdefault e => ?_,
    fun calls calls' hmarks hdefaults hpatches => ?_, fun patch hpatch => ?_,
    s.documentWith_attach config hs⟩
  · rw [Struct.result_node_attach config hs, Struct.result_node_attach config hs, hdefault,
      Struct.replay_eq_error, Struct.replay_eq_error]
  · rw [Struct.attach_eq, Struct.attach_eq, Struct.markAfter, Struct.markAfter,
      Struct.defaultAfter, Struct.defaultAfter, hmarks, hdefaults, hpatches]
  · have hbefore := s.result_node_attach config hs []
    have hafter := s.result_node_attach config hs [.override patch hpatch]
    exact hafter.trans ((s.replay_concat config _ _ [] patch).trans
      (congrArg (Except.map _) hbefore.symm))

/-- An age with a description. -/
def age : Struct := Struct.int.describe "years"

/-- Calls of all kinds, some of them again. -/
def ageCalls : List Attachment :=
  [.default (.int 3), .describe "whole years", .deprecated,
    .override [("minimum", .int 0)] (by decide), .default (.int 0)]

/-- The same calls, those of one kind after those of the other. -/
def sortedAgeCalls : List Attachment :=
  [.describe "whole years", .override [("minimum", .int 0)] (by decide), .deprecated,
    .default (.int 3), .default (.int 0)]

theorem attachments_replayed_age : age.WellFormed ∧
    ((age.attach ageCalls).node {}).result =
      .ok ⟨[("type", .string "integer"), ("deprecated", .bool true), ("default", .int 0),
        ("description", .string "whole years"), ("minimum", .int 0)], false⟩ ∧
    (∀ e, ((age.attach ageCalls).node {}).result = .error e ↔
      ((age.attach [.default (.int 0)]).node {}).result = .error e) ∧
    age.attach ageCalls = age.attach sortedAgeCalls ∧
    ((age.override [("maximum", .int 150)]).node {}).result =
      (age.node {}).result.map fun node =>
        { node with schema := Table.merge node.schema [("maximum", .int 150)] } := by
  have hwell : age.WellFormed := by
    simp [age, Struct.describe, Struct.override, Struct.annotate, Struct.annotated?,
      Struct.mapMetadata, Struct.metadata, Struct.int, Struct.leaf, Struct.WellFormed, Leaf.InRange,
      Metadata.WellFormed, Table.Distinct, Table.insert, Table.find?, Json.WellFormed,
      Json.WellFormedEntries]
  obtain ⟨hnode, herror, hattach, hoverride, -⟩ := attachments_replayed age hwell {}
  exact ⟨hwell, (hnode ageCalls).trans rfl, herror ageCalls _ rfl, hattach _ _ rfl rfl rfl,
    hoverride _ (by decide)⟩

end ShapeSchema
