import SceneSelect.Fault
import SceneSelect.Search.Filter

/-!
# `Search/Match.lean` — following a path through a scene

A search runs in an area, the subtrees of some top nodes. The first step starts above the area, so
that it tests the top nodes themselves; every further step starts from the nodes that the step
before found. The finds of a step are the finds from each of its starting points one after the
other, each node once, at its first place. No step leads above a top node, and the search ends
early when a step finds nothing.
-/

set_option autoImplicit false

namespace SceneSelect

open SceneSelect.Path

namespace Scene

/-- Does the node pass the tests of the step on its tag and on its identity or else its key? -/
def passes (step : Step) (node : Node) : Bool :=
  step.tag.all (fun test => test.accepts node.tag) &&
    match step.identity, step.key with
    | some identity, _ => node.identity == some identity
    | none, some key => node.key.any key.accepts
    | none, none => true

/-- The node that is found when all filters hold of `r`: `r` itself, or the node that the last
filter to resolve elsewhere resolves to. -/
def resolveAll? (s : Scene) (r : Ref) (filters : List Filter) : Option Ref :=
  filters.foldlM
    (fun found filter =>
      (s.resolve? r filter).map fun resolved => if resolved = r then found else resolved)
    r

/-- The node that is found when the step accepts `r`. A text leaf is never accepted. -/
def accept? (s : Scene) (step : Step) (r : Ref) : Option Ref :=
  match s.node? r with
  | none => none
  | some node => if node.isText || !passes step node then none else s.resolveAll? r step.filters

/-- The node at a reference, if it may have children. -/
def inner? (s : Scene) (r : Ref) : Option Node := (s.node? r).filter fun n => !n.isText

/-- What the step finds at the given nodes and through the untagged ones that it does not accept,
`n` levels at most. -/
def exactBelow (s : Scene) (step : Step) : Nat → List Ref → List Ref
  | 0, _ => []
  | n + 1, rs =>
    rs.flatMap fun r =>
      match s.inner? r with
      | none => []
      | some node =>
        match s.accept? step r with
        | some found => [found]
        | none => if node.tag.isNone then s.exactBelow step n node.children else []

/-- What the step finds at the given nodes and everywhere below them, `n` levels at most. Below a
node that is accepted only its children are looked at, and what untagged nodes lead to. -/
def anyBelow (s : Scene) (step : Step) : Nat → List Ref → List Ref
  | 0, _ => []
  | n + 1, rs =>
    rs.flatMap fun r =>
      match s.inner? r with
      | none => []
      | some node =>
        match s.accept? step r with
        | some found => found :: s.exactBelow step n node.children
        | none => s.anyBelow step n node.children

end Scene

/-- Where a step starts from. -/
inductive Origin where
  /-- above the area; the top nodes are its children -/
  | above
  | node (r : Ref)
deriving DecidableEq, Repr

/-- The part of a scene that is searched: everything at or below the top nodes. -/
structure Area where
  scene : Scene
  tops : List Ref

namespace Area

/-- The children of a starting point. -/
def children (a : Area) : Origin → List Ref
  | .above => a.tops
  | .node r => a.scene.children r

/-- The first of these nodes that the step accepts, none of them beyond a top node. -/
def firstAbove? (a : Area) (step : Step) : List Ref → Option Ref
  | [] => none
  | r :: rest =>
    match a.scene.accept? step r with
    | some found => some found
    | none => if r ∈ a.tops then none else a.firstAbove? step rest

/-- The find of a step upwards: the nearest ancestor it accepts, or only the parent if the step
names neither tag nor identity nor key. -/
def ancestor? (a : Area) (step : Step) (r : Ref) : Option Ref :=
  if r ∈ a.tops then none
  else if step.isSelective then a.firstAbove? step (a.scene.ancestors r)
  else (a.scene.parent? r).bind (a.scene.accept? step)

/-- The find of a step sideways. -/
def sibling? (a : Area) (step : Step) (r : Ref) : Option Ref :=
  if r ∈ a.tops then none
  else do
    let (parent, i) ← a.scene.placeInParent? r
    let target := (i : Int) + step.sibling.toInt
    if target < 0 then none
    else
      let sibling ← (a.scene.children parent)[target.toNat]?
      a.scene.accept? step sibling

/-- The finds of a step from one starting point, in the mode of the step. -/
def descend (a : Area) (step : Step) (origin : Origin) : List Ref :=
  match step.mode, origin with
  | .exact, _ => a.scene.exactBelow step a.scene.levels (a.children origin)
  | .any, _ => a.scene.anyBelow step a.scene.levels (a.children origin)
  | .ancestor, .above => []
  | .ancestor, .node r => (a.ancestor? step r).toList

/-- The finds of a step from one starting point. A sibling step goes sideways whatever its mode;
any other picks from what it found if it has a child index. -/
def reach (a : Area) (step : Step) (childIndex : Option Position) (origin : Origin) : List Ref :=
  if step.sibling = 0 then
    match childIndex with
    | some p => p.pick (a.descend step origin)
    | none => a.descend step origin
  else
    match origin with
    | .above => []
    | .node r => (a.sibling? step r).toList

/-- The child index of a step, which may have one at most. -/
def childIndex (step : Step) : Except SearchCause (Option Position) :=
  match step.childIndices with
  | [] => .ok none
  | [p] => .ok (some p)
  | _ => .error (.secondChildIndex step)

/-- What the bare index of a step leaves of its finds. Where `strict` asks for it, an index that
names none of them is a fault. -/
def slice (strict : Bool) (step : Step) (found : List Ref) : Except SearchCause (List Ref) :=
  match step.soleIndex? with
  | none => .ok found
  | some p =>
    match p.pick found with
    | [] => if strict then .error (.indexOutOfRange p found.length step) else .ok []
    | picked => .ok picked

/-- All finds of a step. -/
def follow (a : Area) (strict : Bool) (origins : List Origin) (step : Step) :
    Except SearchCause (List Ref) := do
  let p ← childIndex step
  slice strict step (origins.flatMap (a.reach step p)).eraseDups

/-- The finds of a further step, from those of the one before. -/
def next (a : Area) (strict : Bool) (found : List Ref) (step : Step) :
    Except SearchCause (List Ref) :=
  if found.isEmpty then .ok [] else a.follow strict (found.map .node) step

/-- The finds of a path; a path without steps finds nothing. -/
def find (a : Area) (strict : Bool) : List Step → Except SearchCause (List Ref)
  | [] => .ok []
  | first :: rest => do rest.foldlM (a.next strict) (← a.follow strict [.above] first)

end Area

end SceneSelect
