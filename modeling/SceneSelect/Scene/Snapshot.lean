import SceneSelect.Scene.Basic

/-!
# `Scene/Snapshot.lean` — nested snapshots of scenes

A snapshot is a label with the snapshots of the children. It is read from and written to JSON, and
a scene is built from snapshots by placing their nodes in pre-order. A text leaf has no children, so
a snapshot of one that lists some is refused where it is met: what was placed before it stays.
-/

set_option autoImplicit false

namespace SceneSelect

/-- A node with everything below it. -/
inductive Snapshot where
  | node (label : Label) (children : List Snapshot)
deriving Inhabited

namespace Snapshot

def label : Snapshot → Label
  | .node label _ => label

def children : Snapshot → List Snapshot
  | .node _ children => children

/-! ## JSON -/

/-- The fields of a snapshot in the order declared. -/
def fieldNames : List String :=
  ["tag", "identity", "key", "element", "data", "context", "text", "children"]

/-- Reads the label of a snapshot from its fields. Texts and the element may be missing or `null`;
data and context may only be missing. -/
def readLabel (field : String → Option Json.Value) : Option Label := do
  let tag ← Json.optional? Json.Value.string? (field "tag")
  let identity ← Json.optional? Json.Value.string? (field "identity")
  let key ← Json.optional? Json.Value.string? (field "key")
  let element ← Json.optional? Element.ofJson? (field "element")
  let data ← Json.orDefault [] Json.Value.members? (field "data")
  let context ← Json.orDefault [] Json.Value.members? (field "context")
  let text ← Json.optional? Json.Value.string? (field "text")
  pure { tag, identity, key, element, data, context, text }

/-- Reads a snapshot; a field that is not declared is refused, at every level. -/
def ofJson? (v : Json.Value) : Option Snapshot :=
  match h : Json.record? fieldNames .refused v with
  | none => none
  | some field =>
    match readLabel field with
    | none => none
    | some label =>
      match hc : field "children" with
      | none => some (.node label [])
      | some (.arr items) =>
        (items.attach.mapM fun (item : { x // x ∈ items }) =>
          have : sizeOf item.val < sizeOf v := by
            have hv := Json.sizeOf_field_lt h hc
            have hi := List.sizeOf_lt_of_mem item.property
            simp only [Json.Value.arr.sizeOf_spec] at hv
            omega
          ofJson? item.val).map (.node label)
      | some _ => none
termination_by sizeOf v

/-- Reading a snapshot without the proofs that its children are smaller. -/
theorem ofJson?_eq (v : Json.Value) :
    ofJson? v =
      (Json.record? fieldNames .refused v).bind fun field =>
        (readLabel field).bind fun label =>
          match field "children" with
          | none => some (.node label [])
          | some (.arr items) => (items.mapM ofJson?).map (.node label)
          | some _ => none := by
  have attached : ∀ items : List Json.Value,
      (items.attach.mapM fun item => ofJson? item.val) = items.mapM ofJson? := by
    intro items
    show items.attach.mapM (ofJson? ∘ Subtype.val) = _
    rw [← List.mapM_map, List.attach_map_subtype_val]
  rw [ofJson?]
  split
  case h_1 h => simp [h]
  case h_2 field h =>
    simp only [h, Option.bind_some]
    cases readLabel field with
    | none => rfl
    | some label =>
      simp only [Option.bind_some]
      split
      case h_1 hc => rw [hc]
      case h_2 items hc => rw [hc]; exact congrArg (Option.map _) (attached items)
      case h_3 w hw hc =>
        rw [hc]
        cases w with
        | arr items => exact absurd rfl (hw items)
        | _ => rfl

/-- A member that is written only if there is a value. -/
def memberIf (name : String) (value : Option Json.Value) : Json.Members :=
  (value.map fun v => (name, v)).toList

/-- An object, or nothing for no members. -/
def nonEmpty? (members : Json.Members) : Option Json.Value :=
  if members.isEmpty then none else some (.obj members)

/-- The members of a snapshot that come from its label; what is absent or empty is left out. -/
def labelMembers (l : Label) : Json.Members :=
  memberIf "tag" (l.tag.map .str) ++ memberIf "identity" (l.identity.map .str)
    ++ memberIf "key" (l.key.map .str) ++ memberIf "element" (l.element.map Element.toJson)
    ++ memberIf "data" (nonEmpty? l.data) ++ memberIf "context" (nonEmpty? l.context)
    ++ memberIf "text" (l.text.map .str)

mutual

/-- A snapshot as JSON; children are written when there are any. -/
def toJson : Snapshot → Json.Value
  | .node label children =>
    .obj (labelMembers label ++
      memberIf "children" (if children.isEmpty then none else some (.arr (toJsonAll children))))

/-- Snapshots as the items of an array. -/
def toJsonAll : List Snapshot → List Json.Value
  | [] => []
  | s :: rest => s.toJson :: toJsonAll rest

end

/-- The label of the node that a snapshot is placed as; none for a text leaf with children. -/
def placedLabel : Snapshot → Except InputCause Label
  | .node label children =>
    match label.text with
    | some text => if children.isEmpty then .ok label.normalized else .error (.textWithChildren text)
    | none => .ok label.normalized

end Snapshot

namespace Scene

mutual

/-- Places a snapshot as the last child of a node, and answers with the scene as far as it got. -/
def appendSnapshot (s : Scene) (parent : Ref) : Snapshot → Except InputCause Ref × Scene
  | .node label children =>
    match (Snapshot.node label children).placedLabel with
    | .error cause => (.error cause, s)
    | .ok placed =>
      match s.appendChild parent placed with
      | (.error cause, s) => (.error cause, s)
      | (.ok r, s) =>
        let (done, s) := s.appendSnapshots r children
        (done.map fun _ => r, s)

/-- Places snapshots as the last children of a node, in order, up to the first that is refused. -/
def appendSnapshots (s : Scene) (parent : Ref) : List Snapshot → Except InputCause Unit × Scene
  | [] => (.ok (), s)
  | first :: rest =>
    match s.appendSnapshot parent first with
    | (.error cause, s) => (.error cause, s)
    | (.ok _, s) => s.appendSnapshots parent rest

end

/-- Mounts a snapshot as a root. -/
def mountSnapshot (s : Scene) (key : String) (snapshot : Snapshot) : Except InputCause Scene := do
  let (r, s) := s.mountRoot key (← snapshot.placedLabel)
  let (done, s) := s.appendSnapshots r snapshot.children
  done
  pure s

/-- The scene with these snapshots as its roots, mounted in order. -/
def ofSnapshots (roots : List (String × Snapshot)) : Except InputCause Scene :=
  roots.foldlM (fun s root => s.mountSnapshot root.1 root.2) {}

/-- The scene given by a JSON object of snapshots under the keys of their roots. All of them are
read before the first is mounted. -/
def ofJson (v : Json.Value) : Except InputCause Scene :=
  match v with
  | .obj members => do
    let roots ← members.mapM fun m =>
      match Snapshot.ofJson? m.2 with
      | some snapshot => .ok (m.1, snapshot)
      | none => .error (.badSnapshot m.1)
    ofSnapshots roots
  | _ => .error .notKeyedByRoot

end Scene

end SceneSelect
