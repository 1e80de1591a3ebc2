import SceneSelect.Scene.Snapshot

/-!
# `Scene/Edit.lean` — edits as data

Everything that can be done to a scene in place, as a type. Placing, removing and changing labels
keep the links of a scene in agreement with each other; `link` and `unlink` touch the list of one
parent and nothing else, so they may leave a node listed twice or a reference to nothing.
-/

set_option autoImplicit false

namespace SceneSelect

/-- What to overwrite in a label. Where a value may be cleared, `some none` clears it. -/
structure Relabel where
  tag : Option (Option String) := none
  identity : Option String := none
  key : Option (Option String) := none
  element : Option (Option Element) := none
  /-- entries to put into the data, in order -/
  data : Json.Members := []
  /-- entries to put into the context, in order -/
  context : Json.Members := []

/-- The label with the changes made. -/
def Relabel.apply (c : Relabel) (l : Label) : Label :=
  { l with
    tag := c.tag.getD l.tag
    identity := (c.identity.map identityFor).or l.identity
    key := c.key.getD l.key
    element := c.element.getD l.element
    data := l.data.putAll c.data
    context := l.context.putAll c.context }

/-- An edit of a scene. -/
inductive Edit where
  | mountRoot (key : String) (label : Label)
  | appendChild (parent : Ref) (label : Label)
  | appendSnapshot (parent : Ref) (snapshot : Snapshot)
  | remove (r : Ref)
  /-- lists any reference among the children of a node, and does nothing else -/
  | link (parent child : Ref)
  /-- takes a reference off the children of a node, and does nothing else -/
  | unlink (parent child : Ref)
  | relabel (r : Ref) (change : Relabel)

/-- What an edit has to say. -/
inductive Edit.Answer where
  | placed (r : Ref)
  | refused (cause : InputCause)
  | removed (count : Nat)
  /-- the number of children after linking; none if there is no such parent -/
  | linked (count : Option Nat)
  /-- whether the child was listed; none if there is no such parent -/
  | unlinked (found : Option Bool)
  | relabelled (found : Bool)

/-- A node was placed, or there is a reason why not. -/
def Edit.Answer.ofPlacing : Except InputCause Ref → Edit.Answer
  | .ok r => .placed r
  | .error cause => .refused cause

namespace Scene

/-- Lists a reference among the children of a node, unless it is listed already. -/
def link (s : Scene) (parent child : Ref) : Option Nat × Scene :=
  let linked := { s with nodes := s.nodes.modify parent fun n => n.withChild child }
  ((linked.node? parent).map fun n => n.children.length, linked)

/-- Takes a reference off the children of a node. -/
def unlink (s : Scene) (parent child : Ref) : Option Bool × Scene :=
  ((s.node? parent).map fun n => n.children.contains child,
    { s with nodes := s.nodes.modify parent fun n => n.withoutChild child })

/-- Changes the label of a node, and answers whether there is one. -/
def relabel (s : Scene) (r : Ref) (change : Relabel) : Bool × Scene :=
  (s.contains r,
    { s with nodes := s.nodes.modify r fun n => { n with toLabel := change.apply n.toLabel } })

/-- Makes an edit. -/
def edit (s : Scene) : Edit → Edit.Answer × Scene
  | .mountRoot key label => (s.mountRoot key label).map .placed id
  | .appendChild parent label => (s.appendChild parent label).map Edit.Answer.ofPlacing id
  | .appendSnapshot parent snapshot =>
    (s.appendSnapshot parent snapshot).map Edit.Answer.ofPlacing id
  | .remove r => (s.remove r).map .removed id
  | .link parent child => (s.link parent child).map .linked id
  | .unlink parent child => (s.unlink parent child).map .unlinked id
  | .relabel r change => (s.relabel r change).map .relabelled id

/-- Makes edits in order. -/
def editAll (s : Scene) (edits : List Edit) : Scene := edits.foldl (fun s e => (s.edit e).2) s

end Scene

end SceneSelect
