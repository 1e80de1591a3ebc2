import Mathlib.Logic.Relation
import SceneSelect.Proofs.Arena.Map
import SceneSelect.Scene.Edit

/-!
# `Proofs/Scene/Links.lean` — the links of a scene, as functions of references

All that the shape of a scene depends on is which references are live, the parent and the children
of each, and the roots. Each change to the nodes of a scene is described here by what it does to
`contains`, `parent?` and `children`, so that nothing later looks into a node.
-/

set_option autoImplicit false

namespace SceneSelect.Scene

/-- Following parents from the first reference leads to the second. -/
def ClimbsTo (s : Scene) : Ref → Ref → Prop :=
  Relation.ReflTransGen fun r p => s.parent? r = some p

theorem ClimbsTo.mono {s t : Scene} (h : ∀ r p, s.parent? r = some p → t.parent? r = some p)
    {r stop : Ref} (hclimb : s.ClimbsTo r stop) : t.ClimbsTo r stop :=
  Relation.ReflTransGen.mono h r stop hclimb

theorem climbsTo_congr {s t : Scene} (h : t.parent? = s.parent?) : t.ClimbsTo = s.ClimbsTo := by
  unfold ClimbsTo
  rw [h]

/-- The node, its children, their children and so on. -/
def LeadsTo (s : Scene) (r c : Ref) : Prop :=
  Relation.ReflTransGen (fun parent child => child ∈ s.children parent) r c

/-! ## Live references -/

theorem contains_iff {s : Scene} {r : Ref} :
    s.contains r = true ↔ ∃ node, s.node? r = some node :=
  Option.isSome_iff_exists

theorem node?_eq_none {s : Scene} {r : Ref} (h : ¬s.contains r = true) : s.node? r = none := by
  cases hnode : s.node? r with
  | none => rfl
  | some node => exact absurd (contains_iff.mpr ⟨node, hnode⟩) h

theorem not_contains_of_none {s : Scene} {r : Ref} (h : s.node? r = none) : ¬s.contains r = true := by
  rw [contains_iff, h]
  simp

theorem contains_of_parent {s : Scene} {r p : Ref} (h : s.parent? r = some p) :
    s.contains r = true := by
  obtain ⟨node, hnode, -⟩ := Option.bind_eq_some_iff.mp h
  exact contains_iff.mpr ⟨node, hnode⟩

theorem children_of_dead {s : Scene} {r : Ref} (h : ¬s.contains r = true) : s.children r = [] := by
  rw [children, node?_eq_none h]
  rfl

theorem contains_of_child {s : Scene} {p c : Ref} (h : c ∈ s.children p) :
    s.contains p = true := by
  by_contra hdead
  rw [children_of_dead hdead] at h
  exact absurd h (by simp)

theorem parent_of_node {s : Scene} {r : Ref} {node : Node} (h : s.node? r = some node) :
    s.parent? r = node.parent := by
  rw [parent?, h]
  rfl

theorem children_of_node {s : Scene} {r : Ref} {node : Node} (h : s.node? r = some node) :
    s.children r = node.children := by
  rw [children, h]
  rfl

/-- Nothing leads away from a reference to nothing. -/
theorem LeadsTo.eq_of_dead {s : Scene} {r q : Ref} (h : s.LeadsTo r q) (hr : ¬s.contains r = true) :
    q = r := by
  obtain rfl | ⟨c, hc, -⟩ := Relation.ReflTransGen.cases_head h
  · rfl
  · exact absurd (contains_of_child hc) hr

/-! ## Where two scenes agree -/

section Agree

variable {s t : Scene} {q r : Ref}

theorem parent_congr (h : t.node? q = s.node? q) : t.parent? q = s.parent? q := by
  rw [parent?, parent?, h]

theorem children_congr (h : t.node? q = s.node? q) : t.children q = s.children q := by
  rw [children, children, h]

theorem contains_congr (h : t.node? q = s.node? q) : t.contains q = s.contains q := by
  show (t.node? q).isSome = (s.node? q).isSome
  rw [h]

/-- The scenes have the same nodes, but for what is at `r`. -/
def AgreeOff (s t : Scene) (r : Ref) : Prop := ∀ q, q ≠ r → t.node? q = s.node? q

theorem AgreeOff.parent (h : AgreeOff s t r) (hq : q ≠ r) : t.parent? q = s.parent? q :=
  parent_congr (h q hq)

theorem AgreeOff.children (h : AgreeOff s t r) (hq : q ≠ r) : t.children q = s.children q :=
  children_congr (h q hq)

theorem AgreeOff.contains (h : AgreeOff s t r) (hq : q ≠ r) : t.contains q = s.contains q :=
  contains_congr (h q hq)

end Agree

/-! ## Changes to the nodes -/

/-- The scene with other nodes under the same roots. -/
def withNodes (s : Scene) (nodes : Arena Node) : Scene := { s with nodes }

theorem node?_remove (s : Scene) (r q : Ref) :
    (s.withNodes (s.nodes.remove r).2).node? q = if q = r then none else s.node? q := by
  show (s.nodes.remove r).2.get? q = _
  rw [Arena.get?_remove, Function.update_apply]
  rfl

theorem not_contains_remove (s : Scene) (r : Ref) :
    ¬(s.withNodes (s.nodes.remove r).2).contains r = true :=
  not_contains_of_none ((node?_remove s r r).trans (if_pos rfl))

theorem node?_insert {s : Scene} (h : s.nodes.WellFormed) (node : Node) (q : Ref) :
    (s.withNodes (s.nodes.insert node).2).node? q =
      if q = (s.nodes.insert node).1 then some node else s.node? q := by
  show (s.nodes.insert node).2.get? q = _
  rw [h.get?_insert, Function.update_apply]
  rfl

theorem node?_insert_self {s : Scene} (h : s.nodes.WellFormed) (node : Node) :
    (s.withNodes (s.nodes.insert node).2).node? (s.nodes.insert node).1 = some node := by
  rw [node?_insert h, if_pos rfl]

theorem agreeOff_remove (s : Scene) (r : Ref) :
    AgreeOff s (s.withNodes (s.nodes.remove r).2) r := by
  intro q hq
  rw [node?_remove, if_neg hq]

theorem agreeOff_insert {s : Scene} (h : s.nodes.WellFormed) (node : Node) :
    AgreeOff s (s.withNodes (s.nodes.insert node).2) (s.nodes.insert node).1 := by
  intro q hq
  rw [node?_insert h, if_neg hq]

theorem node?_modify (s : Scene) (p q : Ref) (change : Node → Node) :
    (s.withNodes (s.nodes.modify p change)).node? q =
      if q = p then (s.node? q).map change else s.node? q := by
  show (s.nodes.modify p change).get? q = _
  rw [Arena.get?_modify, Function.update_apply]
  by_cases hq : q = p
  · rw [if_pos hq, if_pos hq, hq]
    rfl
  · rw [if_neg hq, if_neg hq]
    rfl

theorem agreeOff_modify (s : Scene) (p : Ref) (change : Node → Node) :
    AgreeOff s (s.withNodes (s.nodes.modify p change)) p := by
  intro q hq
  rw [node?_modify, if_neg hq]

/-- A child is placed in two steps: the node is made, and then listed. -/
theorem appendChild_of_contains {s : Scene} {parent : Ref} (hparent : s.contains parent = true) (label : Label) :
    let node : Node := { label with parent := some parent }
    let made := s.withNodes (s.nodes.insert node).2
    s.appendChild parent label =
      (.ok (s.nodes.insert node).1,
        made.withNodes (made.nodes.modify parent fun n => n.withChild (s.nodes.insert node).1)) := by
  rw [Scene.appendChild, if_pos hparent]
  rfl

section Modify

variable {s : Scene} {p : Ref} {change : Node → Node}

theorem contains_modify (q : Ref) :
    (s.withNodes (s.nodes.modify p change)).contains q = s.contains q := by
  show ((s.withNodes (s.nodes.modify p change)).node? q).isSome = (s.node? q).isSome
  rw [node?_modify]
  split
  · exact Option.isSome_map
  · rfl

theorem parent_modify (h : ∀ n, (change n).parent = n.parent) (q : Ref) :
    (s.withNodes (s.nodes.modify p change)).parent? q = s.parent? q := by
  rw [parent?, parent?, node?_modify]
  split
  · cases s.node? q with
    | none => rfl
    | some n => exact h n
  · rfl

theorem children_modify (h : ∀ n, (change n).children = n.children) (q : Ref) :
    (s.withNodes (s.nodes.modify p change)).children q = s.children q := by
  rw [children, children, node?_modify]
  split
  · cases s.node? q with
    | none => rfl
    | some n => exact h n
  · rfl

theorem children_modify_ne {q : Ref} (hq : q ≠ p) :
    (s.withNodes (s.nodes.modify p change)).children q = s.children q := by
  refine children_congr ?_
  rw [node?_modify, if_neg hq]

theorem children_modify_self {node : Node} (h : s.node? p = some node) :
    (s.withNodes (s.nodes.modify p change)).children p = (change node).children := by
  rw [children, node?_modify, if_pos rfl, h]
  rfl

end Modify

end SceneSelect.Scene
