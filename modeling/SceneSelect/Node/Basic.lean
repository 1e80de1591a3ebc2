import SceneSelect.Arena.Ref
import SceneSelect.Node.Element

/-!
# `Node/Basic.lean` — scene nodes

A node is a label with its links. The label is what the node says about itself: a tag, an identity,
a key, the element behind it, data of its own and context for all below it. A label with a text is
that of a text leaf. The links are the parent, if any, and the children in the order of the host.
-/

set_option autoImplicit false

namespace SceneSelect

/-- What a node says about itself. -/
structure Label where
  tag : Option String := none
  identity : Option String := none
  key : Option String := none
  element : Option Element := none
  data : Json.Members := []
  context : Json.Members := []
  /-- the text of a text leaf -/
  text : Option String := none
deriving Inhabited

/-- Identities hold no slash, since a slash separates the steps of a path; an underscore takes its
place. -/
def identityFor (raw : String) : String :=
  String.ofList (raw.toList.map fun c => if c = '/' then '_' else c)

namespace Label

/-- The label with its identity fit for paths. -/
def normalized (l : Label) : Label := { l with identity := l.identity.map identityFor }

/-- Is it the label of a text leaf? -/
def isText (l : Label) : Bool := l.text.isSome

/-- Is there no element behind the node? -/
def isVirtual (l : Label) : Bool := l.element.isNone

/-- The label in one word: its tag and identity, `#text` for a text leaf, `_` when there is
nothing to say. -/
def describe (l : Label) : String :=
  match l.text, l.tag, l.identity with
  | some _, _, _ => "#text"
  | none, some tag, some identity => tag ++ "." ++ identity
  | none, some tag, none => tag
  | none, none, some identity => "." ++ identity
  | none, none, none => "_"

end Label

/-- A node of a scene. -/
structure Node extends Label where
  parent : Option Ref := none
  /-- the children in the order of the host -/
  children : List Ref := []
deriving Inhabited

namespace Node

/-- Appends a child, unless it is one already. -/
def withChild (n : Node) (child : Ref) : Node :=
  if child ∈ n.children then n else { n with children := n.children ++ [child] }

/-- Takes a child off the list. -/
def withoutChild (n : Node) (child : Ref) : Node :=
  { n with children := n.children.erase child }

end Node

end SceneSelect
