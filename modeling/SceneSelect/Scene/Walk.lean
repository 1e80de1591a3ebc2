import SceneSelect.Scene.Basic

/-!
# `Scene/Walk.lean` — walking a scene

Ancestors, positions among siblings, the nearest element above and below a node, and the place of a
node in words. Nothing of this is kept in the nodes; it is all read off the links.

A scene is a graph of references, so every walk is given the number of levels it may still enter.
`Scene.levels` is always enough: a walk that follows links without coming back to a node enters each
slot at most once.
-/

set_option autoImplicit false

namespace SceneSelect.Scene

/-- How many levels a walk may enter: one for each slot. -/
def levels (s : Scene) : Nat := s.nodes.slots.size

/-! ## Upwards -/

/-- The parent, its parent and so on, at most `n` of them. -/
def climb (s : Scene) : Nat → Ref → List Ref
  | 0, _ => []
  | n + 1, r =>
    match s.parent? r with
    | some p => p :: s.climb n p
    | none => []

/-- The ancestors of a node, nearest first. -/
def ancestors (s : Scene) (r : Ref) : List Ref := s.climb s.levels r

/-- The node and its ancestors. -/
def selfAndAncestors (s : Scene) (r : Ref) : List Ref := r :: s.ancestors r

/-- The number of ancestors. -/
def depth (s : Scene) (r : Ref) : Nat := (s.ancestors r).length

/-- The parent of a node and the place of the node among its children. -/
def placeInParent? (s : Scene) (r : Ref) : Option (Ref × Nat) := do
  let p ← s.parent? r
  let i ← (s.children p).idxOf? r
  pure (p, i)

/-- Is there a node here, with an element? -/
def hasElement (s : Scene) (r : Ref) : Bool := (s.node? r).any fun n => !n.isVirtual

/-- The nearest of the node and its ancestors that has an element. -/
def elementAbove? (s : Scene) (r : Ref) : Option Ref := (s.selfAndAncestors r).find? s.hasElement

/-- The place of a node in words, from its root down. -/
def describe (s : Scene) (r : Ref) : String :=
  let labels := (s.selfAndAncestors r).filterMap fun r => (s.node? r).map fun n => n.describe
  "/".intercalate labels.reverse

/-! ## Downwards -/

/-- How many references a walk meets that enters `n` levels from here. -/
def visits (s : Scene) : Nat → Ref → Nat
  | 0, _ => 1
  | n + 1, r => (s.children r).foldr (fun c total => s.visits n c + total) 1

/-- The same for a whole worklist, whose entries each have their own levels left. -/
def visitsAll (s : Scene) (pending : List (Nat × Ref)) : Nat :=
  pending.foldr (fun e total => s.visits e.1 e.2 + total) 0

@[simp] theorem visitsAll_nil (s : Scene) : s.visitsAll [] = 0 := rfl

@[simp] theorem visitsAll_cons (s : Scene) (e : Nat × Ref) (rest : List (Nat × Ref)) :
    s.visitsAll (e :: rest) = s.visits e.1 e.2 + s.visitsAll rest := rfl

@[simp] theorem visitsAll_append (s : Scene) (a b : List (Nat × Ref)) :
    s.visitsAll (a ++ b) = s.visitsAll a + s.visitsAll b := by
  induction a with
  | nil => simp
  | cons e rest ih => simp [ih, Nat.add_assoc]

/-- Replacing an entry by its children makes a worklist cheaper. -/
theorem visitsAll_children (s : Scene) (n : Nat) (r : Ref) :
    s.visitsAll ((s.children r).map fun c => (n, c)) + 1 = s.visits (n + 1) r := by
  show _ = (s.children r).foldr (fun c total => s.visits n c + total) 1
  induction s.children r with
  | nil => rfl
  | cons c rest ih => rw [List.map_cons, visitsAll_cons, List.foldr_cons, ← ih, Nat.add_assoc]

theorem visits_pos (s : Scene) (n : Nat) (r : Ref) : 0 < s.visits n r := by
  cases n with
  | zero => exact Nat.one_pos
  | succ n => rw [← visitsAll_children]; exact Nat.succ_pos _

/-- Looks for an element level by level: the first entry of the queue is looked at, and its
children go to the end. -/
def firstElement? (s : Scene) (queue : List (Nat × Ref)) : Option Ref :=
  match queue with
  | [] => none
  | (0, _) :: rest => s.firstElement? rest
  | (n + 1, r) :: rest =>
    if s.hasElement r then some r
    else s.firstElement? (rest ++ (s.children r).map fun c => (n, c))
termination_by s.visitsAll queue
decreasing_by
  · have := s.visits_pos 0 ‹Ref›
    simp
    omega
  · have := s.visitsAll_children n r
    simp only [visitsAll_append, visitsAll_cons, Nat.succ_eq_add_one]
    omega

/-- The node that has an element and is nearest below this one, level by level and within a level
from left to right; the node itself comes first. -/
def elementBelow? (s : Scene) (r : Ref) : Option Ref := s.firstElement? [(s.levels, r)]

end SceneSelect.Scene
