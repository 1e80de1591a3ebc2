import SceneSelect.Path.Basic
import SceneSelect.Scene.Values

/-!
# `Search/Filter.lean` — filters on a node

A filter that holds of a node resolves to a node: the same one, except that a text filter resolves
to the nearest element at or above it. Index filters hold of every node here; they pick from lists
of matches, which a single node does not see.
-/

set_option autoImplicit false

namespace SceneSelect.Scene

open SceneSelect.Path

/-- Does a text leaf below `r` pass the test? Only untagged nodes are looked through, `n` levels of
them at most. -/
def hasTextBelow (s : Scene) (test : ValueTest) : Nat → Ref → Bool
  | 0, _ => false
  | n + 1, r =>
    (s.children r).any fun c =>
      match s.node? c with
      | none => false
      | some node =>
        match node.text with
        | some text => test.accepts text
        | none => node.tag.isNone && s.hasTextBelow test n c

/-- The node that a filter resolves to when it holds of `r`. -/
def resolve? (s : Scene) (r : Ref) : Filter → Option Ref
  | .index _ | .childIndex _ => if s.contains r then some r else none
  | .text test =>
    if s.contains r && s.hasTextBelow test s.levels r then s.elementAbove? r else none
  | .attribute name test =>
    if (s.attribute? r name).any test.acceptsValue then some r else none
  | .data name test => if (s.data? r name).any test.acceptsValue then some r else none

end SceneSelect.Scene
