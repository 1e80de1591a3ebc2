import SceneSelect.Arena.Basic
import SceneSelect.Fault
import SceneSelect.Node.Basic

/-!
# `Scene/Basic.lean` — the scene

A scene is an arena of nodes with a list of roots, each under a key, in the order in which they were
mounted. Nodes are placed as a root or as the last child of a node, and removed with all that is
below them. Placing a root under a key that is taken removes the root that had it.

Removal works off a stack of references. A child that is listed twice, or that is no longer there,
costs one look. A node that is taken out puts its children on the stack and takes their list with it,
so there are no more looks than references that are listed, and the work ends whatever the links are.
-/

set_option autoImplicit false

namespace SceneSelect

/-- The nodes of all mounted roots. -/
structure Scene where
  nodes : Arena Node := {}
  /-- the mounted roots under their keys, in mount order -/
  roots : List (String × Ref) := []
deriving Inhabited

namespace Scene

/-! ## Looking up -/

/-- The node at a reference. -/
def node? (s : Scene) (r : Ref) : Option Node := s.nodes.get? r

/-- Is there a node at the reference? -/
def contains (s : Scene) (r : Ref) : Bool := s.nodes.contains r

/-- The children of a node; none for a reference without a node. -/
def children (s : Scene) (r : Ref) : List Ref := ((s.node? r).map Node.children).getD []

/-- The parent of a node, if it has one. -/
def parent? (s : Scene) (r : Ref) : Option Ref := (s.node? r).bind Node.parent

/-- The root under a key. -/
def root? (s : Scene) (key : String) : Option Ref := s.roots.lookup key

/-- The roots in mount order. -/
def rootRefs (s : Scene) : List Ref := s.roots.map Prod.snd

/-- The number of nodes. -/
def size (s : Scene) : Nat := s.nodes.live

/-! ## Removing -/

/-- The references that the nodes of an arena list as their children. -/
def listed (nodes : Arena Node) : List Ref :=
  nodes.slots.toList.flatMap fun slot => (slot.value?.map Node.children).getD []

theorem length_listed_remove {nodes smaller : Arena Node} {r : Ref} {node : Node}
    (h : nodes.remove r = (some node, smaller)) :
    (listed smaller).length + node.children.length = (listed nodes).length := by
  obtain ⟨before, after, hnodes, hsmaller⟩ := Arena.exists_slots_of_remove h
  rw [listed, listed, hnodes, hsmaller]
  simp only [List.flatMap_append, List.flatMap_cons, List.length_append, Slot.value?, Option.map_some,
    Option.map_none, Option.getD_some, Option.getD_none, List.length_nil]
  omega

/-- Takes the pending nodes and all below them out of the arena, the first pending one first, and
the last child of a node before the others. Answers with the number of nodes taken out. -/
def uproot (nodes : Arena Node) (pending : List Ref) (removed : Nat) : Nat × Arena Node :=
  match pending with
  | [] => (removed, nodes)
  | r :: rest =>
    match h : nodes.remove r with
    | (some node, smaller) =>
      have := length_listed_remove h
      uproot smaller (node.children.reverse ++ rest) (removed + 1)
    | (none, _) => uproot nodes rest removed
termination_by (listed nodes).length + pending.length
decreasing_by
  · simp only [List.length_append, List.length_reverse, List.length_cons]
    omega
  · simp

/-- The scene without the link that leads to a node: the entry in the children of its parent, or in
the roots when it has none. -/
def detach (s : Scene) (r : Ref) (parent : Option Ref) : Scene :=
  match parent with
  | some p => { s with nodes := s.nodes.modify p fun n => n.withoutChild r }
  | none => { s with roots := s.roots.filter fun root => root.2 != r }

/-- Removes a node with all below it, and answers with how many nodes that were. -/
def remove (s : Scene) (r : Ref) : Nat × Scene :=
  match s.node? r with
  | none => (0, s)
  | some node =>
    let detached := s.detach r node.parent
    let (removed, nodes) := uproot detached.nodes [r] 0
    (removed, { detached with nodes })

/-! ## Placing -/

/-- Mounts a node as a root. What was mounted under the key goes first. -/
def mountRoot (s : Scene) (key : String) (label : Label) : Ref × Scene :=
  let s :=
    match s.root? key with
    | some old => (s.remove old).2
    | none => s
  let (r, nodes) := s.nodes.insert { label with }
  (r, { nodes, roots := s.roots ++ [(key, r)] })

/-- Places a node as the last child of another, which may be any node of the scene. -/
def appendChild (s : Scene) (parent : Ref) (label : Label) : Except InputCause Ref × Scene :=
  if s.contains parent then
    let (r, nodes) := s.nodes.insert { label with parent := some parent }
    (.ok r, { s with nodes := nodes.modify parent fun n => n.withChild r })
  else (.error (.missingParent parent), s)

end Scene

end SceneSelect
