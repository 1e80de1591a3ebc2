import SceneSelect.Host
import SceneSelect.Path.Parser
import SceneSelect.Search.Match
import SceneSelect.Search.Rules

/-!
# `Search/Run.lean` — searches

A search follows a path through the area that a scope describes and then treats the finds by the
element policy. The searches at a host read the path first, so that a path that cannot be read is
reported whether or not there is a scene.
-/

set_option autoImplicit false

namespace SceneSelect

/-- Where to search. -/
inductive Scope where
  | everywhere
  | root (key : String)
  /-- the node and everything below it -/
  | node (r : Ref)
deriving DecidableEq, Repr, Inhabited

/-- The top nodes of a scope; none if the root or the node is not there. -/
def Scope.tops (s : Scene) : Scope → List Ref
  | .everywhere => s.rootRefs
  | .root key => (s.root? key).toList
  | .node r => if s.contains r then [r] else []

namespace Scene

/-! ## Element rules -/

/-- Each find gives way to the nearest element below it. -/
def toElements (s : Scene) (tolerateMissing : Bool) : List Ref → Except SearchCause (List Ref)
  | [] => .ok []
  | r :: rest =>
    match s.elementBelow? r with
    | some element => (s.toElements tolerateMissing rest).map (element :: ·)
    | none =>
      if tolerateMissing then s.toElements tolerateMissing rest
      else .error (.noElementBelow (s.describe r))

/-- Treats finds by an element rule. No element is found twice. -/
def applyRule (s : Scene) (found : List Ref) :
    ElementRule → Except SearchCause (List Ref)
  | .logical => .ok found
  | .requireElement =>
    match found.find? fun r => (s.node? r).any fun n => n.isVirtual with
    | some r => .error (.virtualNode (s.describe r))
    | none => .ok found
  | .nearestDescendant tolerateMissing => (s.toElements tolerateMissing found).map List.eraseDups

/-- The finds of a path in a scope. -/
def search (s : Scene) (path : List Path.Step) (scope : Scope) (rules : FindRules) :
    Except Fault (List Ref) :=
  ((Area.find ⟨s, scope.tops s⟩ rules.strictIndex path).bind fun found =>
    s.applyRule found rules.element).mapError .search

end Scene

namespace Host

/-! ## Searches at a host -/

/-- Reads the text of a path. -/
def readPath (text : String) : Except Fault (List Path.Step) := (Path.parse text).mapError .path

/-- All finds of a path that was read before. -/
def search (h : Host) (rules : FindRules) (path : List Path.Step) (scope : Scope) :
    Except Fault (List Ref) :=
  h.tryRead fun s => s.search path scope rules

/-- All finds of a path. -/
def findAll (h : Host) (rules : FindRules) (text : String) (scope : Scope) :
    Except Fault (List Ref) := do
  h.search rules (← readPath text) scope

/-- The first find of a path in the whole scene. -/
def findFirst (h : Host) (rules : FindRules) (text : String) : Except Fault (Option Ref) :=
  (h.findAll rules text .everywhere).map List.head?

/-- The rules of a search that must find an element: where a find without one would be kept, it
gives way to the nearest below it. -/
def elementRules (rules : FindRules) : FindRules :=
  match rules.element with
  | .logical => { rules with element := .nearestDescendant true }
  | _ => rules

/-- The first element that a path finds in the whole scene. -/
def findElement (h : Host) (rules : FindRules) (text : String) : Except Fault (Option Ref) :=
  h.findFirst (elementRules rules) text

/-- Reads a value off the first find of a path, in the scene that the search saw. -/
def readFirst {α : Type} (h : Host) (rules : FindRules) (text : String)
    (look : Scene → Ref → Option α) : Except Fault (Option α) := do
  let path ← readPath text
  h.tryRead fun s => (s.search path .everywhere rules).map fun found => found.head?.bind (look s)

/-- An attribute of the first find. -/
def readAttribute (h : Host) (rules : FindRules) (text name : String) :
    Except Fault (Option Json.Value) :=
  h.readFirst rules text fun s r => s.attribute? r name

/-- A property of the first find. -/
def readProperty (h : Host) (rules : FindRules) (text name : String) :
    Except Fault (Option Json.Value) :=
  h.readFirst rules text fun s r => s.property? r name

/-- An entry of the data of the first find. -/
def readData (h : Host) (rules : FindRules) (text name : String) :
    Except Fault (Option Json.Value) :=
  h.readFirst rules text fun s r => s.data? r name

/-- The context entry visible at the first find. -/
def readContext (h : Host) (rules : FindRules) (text name : String) :
    Except Fault (Option Json.Value) :=
  h.readFirst rules text fun s r => s.context? r name

/-- The text of the first find. -/
def readText (h : Host) (rules : FindRules) (text : String) : Except Fault (Option String) :=
  h.readFirst rules text Scene.text?

end Host

end SceneSelect
