import SceneSelect.Scene.Walk

/-!
# `Scene/Values.lean` — values read off a node

Attributes and properties belong to the element of a node, data to the node itself. Context is
looked up lexically: the node's own entry, else that of the nearest ancestor that has one. The text
of a node is what the text leaves at or below it hold, from left to right; without any leaf there
is no text, which is not the same as an empty one.
-/

set_option autoImplicit false

namespace SceneSelect.Scene

/-- The element behind a node. -/
def element? (s : Scene) (r : Ref) : Option Element := (s.node? r).bind fun n => n.element

/-- An attribute of the node's element, or else its property of that name. -/
def attribute? (s : Scene) (r : Ref) (name : String) : Option Json.Value :=
  (s.element? r).bind fun e => e.read name

/-- A property of the node's element. -/
def property? (s : Scene) (r : Ref) (name : String) : Option Json.Value :=
  (s.element? r).bind fun e => e.properties.get? name

/-- An entry of the node's data. -/
def data? (s : Scene) (r : Ref) (name : String) : Option Json.Value :=
  (s.node? r).bind fun n => n.data.get? name

/-- The entry of the node's own context. -/
def ownContext? (s : Scene) (name : String) (r : Ref) : Option Json.Value :=
  (s.node? r).bind fun n => n.context.get? name

/-- The context entry visible at a node. -/
def context? (s : Scene) (r : Ref) (name : String) : Option Json.Value :=
  if s.contains r then (s.selfAndAncestors r).findSome? (s.ownContext? name) else none

/-- Gathers the text leaves from a stack, whose first entry is looked at next; `found` is the text
gathered so far. The children of a text leaf are not looked at. -/
def gatherText (s : Scene) (stack : List (Nat × Ref)) (found : Option String) : Option String :=
  match stack with
  | [] => found
  | (0, _) :: rest => s.gatherText rest found
  | (n + 1, r) :: rest =>
    match (s.node? r).bind fun node => node.text with
    | some text => s.gatherText rest (some (found.getD "" ++ text))
    | none => s.gatherText (((s.children r).map fun c => (n, c)) ++ rest) found
termination_by s.visitsAll stack
decreasing_by
  · have := s.visits_pos 0 ‹Ref›
    simp
    omega
  · have := s.visits_pos (n + 1) r
    simp
    omega
  · have := s.visitsAll_children n r
    simp only [visitsAll_append, visitsAll_cons, Nat.succ_eq_add_one]
    omega

/-- The text of a node. -/
def text? (s : Scene) (r : Ref) : Option String := s.gatherText [(s.levels, r)] none

end SceneSelect.Scene
