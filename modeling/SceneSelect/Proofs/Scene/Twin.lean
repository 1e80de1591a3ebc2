import Mathlib.Data.List.Find
import SceneSelect.Proofs.Distinct
import SceneSelect.Proofs.Scene.Nearest
import SceneSelect.Scene.Values

/-!
# `Proofs/Scene/Twin.lean` — subtrees of the same shape

Two subtrees have the same shape when a renaming of references takes the nodes of one to those of the
other, with their labels and with their children in order. Nothing is asked of the numbers of the slots,
of the parents, of the rest of either scene, or of how many slots there are.

Where both subtrees are those of roots, everything that is read off a node on the way up or down agrees
with the renaming: the parent and the ancestors, the place among the siblings, the nearest elements, the
place in words. For the way up this is because nothing is above a root. For the way down the two scenes
may allow different numbers of levels; both allow enough, and `Twins.induction_levels` is the induction
in which only that is used.
-/

set_option autoImplicit false

namespace SceneSelect.Scene

/-- The renaming takes all at or below `a` to all at or below `b`, and keeps labels and the order of
children. -/
structure SameShape (f : Ref → Ref) (s : Scene) (a : Ref) (t : Scene) (b : Ref) : Prop where
  bijective : Set.BijOn f {r | s.ClimbsTo r a} {r | t.ClimbsTo r b}
  label : ∀ r, s.ClimbsTo r a →
    (t.node? (f r)).map Node.toLabel = (s.node? r).map Node.toLabel
  children : ∀ r, s.ClimbsTo r a → t.children (f r) = (s.children r).map f

/-- A renaming that takes one top to the other and children to children misses nothing. -/
theorem sameShape_of_children {f : Ref → Ref} {s t : Scene} {a b : Ref} (hs : s.IsForest)
    (ht : t.IsForest) (htop : f a = b) (hinjective : Set.InjOn f {r | s.ClimbsTo r a})
    (hlabel : ∀ r, s.ClimbsTo r a →
      (t.node? (f r)).map Node.toLabel = (s.node? r).map Node.toLabel)
    (hchildren : ∀ r, s.ClimbsTo r a → t.children (f r) = (s.children r).map f) :
    SameShape f s a t b := by
  refine ⟨⟨?_, hinjective, ?_⟩, hlabel, hchildren⟩
  · intro r hr
    induction hr using Relation.ReflTransGen.head_induction_on with
    | refl => exact htop ▸ .refl
    | @head r p hp habove ih =>
      have hlisted : f r ∈ t.children (f p) := by
        rw [hchildren p habove]
        exact List.mem_map_of_mem (hs.mem_children hp)
      exact (ht.climbsTo_of_child hlisted).trans ih
  · intro q hq
    induction hq using Relation.ReflTransGen.head_induction_on with
    | refl => exact ⟨a, .refl, htop⟩
    | @head q p' hp' habove ih =>
      obtain ⟨p, hp, rfl⟩ := ih
      have hlisted := ht.mem_children hp'
      rw [hchildren p hp] at hlisted
      obtain ⟨c, hc, rfl⟩ := List.mem_map.mp hlisted
      exact ⟨c, (hs.climbsTo_of_child hc).trans hp, rfl⟩

/-- Roots of the same shape, each in a forest. -/
structure Twins (f : Ref → Ref) (s : Scene) (a : Ref) (t : Scene) (b : Ref) : Prop extends
    SameShape f s a t b where
  left_forest : s.IsForest
  right_forest : t.IsForest
  left_root : a ∈ s.rootRefs
  right_root : b ∈ t.rootRefs

theorem IsForest.parent_of_root {s : Scene} {root : Ref} (hs : s.IsForest)
    (h : root ∈ s.rootRefs) : s.parent? root = none :=
  ((hs.mem_roots root).mp h).2

namespace Twins

variable {f : Ref → Ref} {s t : Scene} {a b r : Ref}

/-! ## Inside the subtrees -/

theorem live (h : Twins f s a t b) (hr : s.ClimbsTo r a) : s.contains r = true := by
  obtain rfl | ⟨p, hp, -⟩ := Relation.ReflTransGen.cases_head hr
  · exact ((h.left_forest.mem_roots _).mp h.left_root).1
  · exact contains_of_parent hp

/-- Nothing is above a root, so the way up stays inside. -/
theorem up (h : Twins f s a t b) (hr : s.ClimbsTo r a) {q : Ref} (hq : s.ClimbsTo r q) :
    s.ClimbsTo q a := by
  rcases hr.total hq with habove | hbelow
  · obtain rfl | ⟨p, hp, -⟩ := Relation.ReflTransGen.cases_head habove
    · exact .refl
    · exact absurd ((h.left_forest.parent_of_root h.left_root).symm.trans hp) (by simp)
  · exact hbelow

theorem child (h : Twins f s a t b) (hr : s.ClimbsTo r a) {c : Ref} (hc : c ∈ s.children r) :
    s.ClimbsTo c a :=
  (h.left_forest.climbsTo_of_child hc).trans hr

theorem eq_iff (h : Twins f s a t b) (hr : s.ClimbsTo r a) {q : Ref} (hq : s.ClimbsTo q a) :
    f r = f q ↔ r = q :=
  h.bijective.injOn.eq_iff hr hq

theorem injOn (h : Twins f s a t b) {rs : List Ref} (hrs : ∀ r ∈ rs, s.ClimbsTo r a) :
    Set.InjOn f {r | r ∈ rs} :=
  h.bijective.injOn.mono hrs

/-! ## Nodes -/

theorem nodes (h : Twins f s a t b) (hr : s.ClimbsTo r a) :
    ∃ node node', s.node? r = some node ∧ t.node? (f r) = some node' ∧
      node'.toLabel = node.toLabel ∧ node'.children = node.children.map f := by
  obtain ⟨node, hnode⟩ := contains_iff.mp (h.live hr)
  have hlabel := h.label r hr
  rw [hnode] at hlabel
  obtain ⟨node', hnode', heq⟩ := Option.map_eq_some_iff.mp hlabel
  have hchildren := h.children r hr
  rw [children_of_node hnode, children_of_node hnode'] at hchildren
  exact ⟨node, node', hnode, hnode', heq, hchildren⟩

theorem contains (h : Twins f s a t b) (hr : s.ClimbsTo r a) :
    t.contains (f r) = s.contains r := by
  obtain ⟨node, node', hnode, hnode', -⟩ := h.nodes hr
  rw [contains_iff.mpr ⟨node, hnode⟩, contains_iff.mpr ⟨node', hnode'⟩]

/-- What is read off the label of a node is the same for both. -/
theorem bind_label (h : Twins f s a t b) (hr : s.ClimbsTo r a) {α : Type} (look : Label → Option α) :
    (t.node? (f r)).bind (fun n => look n.toLabel) = (s.node? r).bind fun n => look n.toLabel := by
  obtain ⟨node, node', hnode, hnode', heq, -⟩ := h.nodes hr
  rw [hnode, hnode', Option.bind_some, Option.bind_some, heq]

theorem any_label (h : Twins f s a t b) (hr : s.ClimbsTo r a) (test : Label → Bool) :
    (t.node? (f r)).any (fun n => test n.toLabel) = (s.node? r).any fun n => test n.toLabel := by
  obtain ⟨node, node', hnode, hnode', heq, -⟩ := h.nodes hr
  rw [hnode, hnode', Option.any_some, Option.any_some, heq]

theorem hasElement (h : Twins f s a t b) (hr : s.ClimbsTo r a) :
    t.hasElement (f r) = s.hasElement r :=
  h.any_label hr fun l => !l.isVirtual

theorem read_attribute (h : Twins f s a t b) (hr : s.ClimbsTo r a) (name : String) :
    t.attribute? (f r) name = s.attribute? r name :=
  congrArg (fun element : Option Element => element.bind fun e => e.read name)
    (h.bind_label hr Label.element)

theorem read_data (h : Twins f s a t b) (hr : s.ClimbsTo r a) (name : String) :
    t.data? (f r) name = s.data? r name :=
  h.bind_label hr fun l => l.data.get? name

/-! ## Upwards -/

/-- The root corresponds to the root: any other node has a parent, and so has what corresponds to
it. -/
theorem map_root (h : Twins f s a t b) : f a = b := by
  obtain ⟨r, hr, rfl⟩ := h.bijective.surjOn (show t.ClimbsTo b b from .refl)
  obtain heq | ⟨p, hp, habove⟩ := Relation.ReflTransGen.cases_head hr
  · rw [heq]
  · have hlisted : f r ∈ t.children (f p) := by
      rw [h.children p habove]
      exact List.mem_map_of_mem (h.left_forest.mem_children hp)
    have hparent := (h.right_forest.children_live _ _ hlisted).2
    exact absurd ((h.right_forest.parent_of_root h.right_root).symm.trans hparent) (by simp)

theorem parent (h : Twins f s a t b) (hr : s.ClimbsTo r a) :
    t.parent? (f r) = (s.parent? r).map f := by
  obtain rfl | ⟨p, hp, habove⟩ := Relation.ReflTransGen.cases_head hr
  · rw [h.map_root, h.right_forest.parent_of_root h.right_root,
      h.left_forest.parent_of_root h.left_root]
    rfl
  · have hlisted : f r ∈ t.children (f p) := by
      rw [h.children p habove]
      exact List.mem_map_of_mem (h.left_forest.mem_children hp)
    rw [(h.right_forest.children_live _ _ hlisted).2, hp]
    rfl

theorem ancestors (h : Twins f s a t b) (hr : s.ClimbsTo r a) :
    t.ancestors (f r) = (s.ancestors r).map f := by
  induction hr using Relation.ReflTransGen.head_induction_on with
  | refl =>
    have hnone := h.left_forest.parent_of_root h.left_root
    have hnone' := h.parent .refl
    rw [hnone] at hnone'
    rw [ancestors_of_root hnone, ancestors_of_root hnone']
    rfl
  | @head r p hp habove ih =>
    have hp' := h.parent (.head hp habove)
    rw [hp] at hp'
    rw [h.left_forest.ancestors_of_parent hp, h.right_forest.ancestors_of_parent hp', ih]
    rfl

theorem selfAndAncestors (h : Twins f s a t b) (hr : s.ClimbsTo r a) :
    t.selfAndAncestors (f r) = (s.selfAndAncestors r).map f := by
  rw [Scene.selfAndAncestors, Scene.selfAndAncestors, h.ancestors hr, List.map_cons]

/-- The node and its ancestors are inside. -/
theorem inside_above (h : Twins f s a t b) (hr : s.ClimbsTo r a) :
    ∀ q ∈ s.selfAndAncestors r, s.ClimbsTo q a := by
  intro q hq
  rcases List.mem_cons.mp hq with rfl | hq
  · exact hr
  · exact h.up hr (climbsTo_of_mem_climb hq)

theorem elementAbove (h : Twins f s a t b) (hr : s.ClimbsTo r a) :
    t.elementAbove? (f r) = (s.elementAbove? r).map f := by
  have hsame : ∀ q ∈ s.selfAndAncestors r, t.hasElement (f q) = s.hasElement q :=
    fun q hq => h.hasElement (h.inside_above hr q hq)
  rw [elementAbove?, elementAbove?, h.selfAndAncestors hr, List.find?_map]
  exact congrArg (Option.map f) (List.find?_congr hsame)

theorem describe (h : Twins f s a t b) (hr : s.ClimbsTo r a) : t.describe (f r) = s.describe r := by
  have hsame : ∀ q ∈ s.selfAndAncestors r,
      ((t.node? (f q)).map fun n => n.describe) = (s.node? q).map fun n => n.describe := by
    intro q hq
    have hlabel := congrArg (Option.map Label.describe) (h.label q (h.inside_above hr q hq))
    rwa [Option.map_map, Option.map_map] at hlabel
  have hlabels := List.filterMap_congr hsame
  rw [Scene.describe, Scene.describe, h.selfAndAncestors hr, List.filterMap_map]
  exact congrArg (fun labels : List String => "/".intercalate labels.reverse) hlabels

theorem place (h : Twins f s a t b) (hr : s.ClimbsTo r a) :
    t.placeInParent? (f r) = (s.placeInParent? r).map fun place => (f place.1, place.2) := by
  rw [placeInParent?, placeInParent?, h.parent hr]
  cases hp : s.parent? r with
  | none => rfl
  | some p =>
    have hpa : s.ClimbsTo p a := h.up hr (.single hp)
    have hplace : ((s.children p).map f).idxOf? (f r) = (s.children p).idxOf? r :=
      idxOf?_map fun c hc => h.eq_iff (h.child hpa hc) hr
    show ((t.children (f p)).idxOf? (f r)).bind _ = Option.map _ (((s.children p).idxOf? r).bind _)
    rw [h.children p hpa, hplace]
    cases (s.children p).idxOf? r with
    | none => rfl
    | some i => rfl

/-! ## Downwards -/

/-- What two walks have in common after a level if they have it for the children, whatever the levels
left, they have in common from the levels of their scenes on. -/
theorem induction_levels (h : Twins f s a t b) {P : Nat → Nat → Ref → Prop}
    (step : ∀ n m r, s.ClimbsTo r a → (∀ c ∈ s.children r, P n m c) → P (n + 1) (m + 1) r)
    (hr : s.ClimbsTo r a) : P s.levels t.levels r := by
  -- both walks have the levels left that are below the node, so neither ends before the other
  suffices hall : s.ClimbsTo r a → ∀ n m, s.levels ≤ n + s.depth r → t.levels ≤ m + t.depth (f r) →
      P n m r from hall hr _ _ (Nat.le_add_right _ _) (Nat.le_add_right _ _)
  refine h.left_forest.induction_below (P := fun r => s.ClimbsTo r a → ∀ n m,
    s.levels ≤ n + s.depth r → t.levels ≤ m + t.depth (f r) → P n m r) ?_ (h.live hr)
  intro r hlive ih hr n m hn hm
  have hdeep := h.left_forest.depth_lt_levels hlive
  have hdeep' := h.right_forest.depth_lt_levels ((h.contains hr).trans hlive)
  obtain ⟨n, rfl⟩ := Nat.exists_eq_succ_of_ne_zero (show n ≠ 0 by omega)
  obtain ⟨m, rfl⟩ := Nat.exists_eq_succ_of_ne_zero (show m ≠ 0 by omega)
  refine step n m r hr fun c hc => ?_
  have hlisted : f c ∈ t.children (f r) := by
    rw [h.children r hr]
    exact List.mem_map_of_mem hc
  have hdeeper := h.left_forest.depth_of_child hc
  have hdeeper' := h.right_forest.depth_of_child hlisted
  exact ih c hc (h.child hr hc) n m (by omega) (by omega)

/-- The queues hold what corresponds to each other, however many levels are left. -/
theorem firstElement (h : Twins f s a t b) {queue queue' : List (Nat × Ref)}
    (hq : s.Leveled queue) (hq' : t.Leveled queue')
    (hinside : ∀ entry ∈ queue, s.ClimbsTo entry.2 a)
    (hsame : queue'.map Prod.snd = queue.map fun entry => f entry.2) :
    t.firstElement? queue' = (s.firstElement? queue).map f := by
  induction queue using firstElement?.induct s generalizing queue' with
  | case1 =>
    obtain rfl := List.map_eq_nil_iff.mp hsame
    simp [firstElement?]
  | case2 r rest => exact absurd rfl (hq.ne_zero h.left_forest)
  | case3 n r rest helement =>
    obtain ⟨⟨m, q⟩, rest', rfl, hfirst, -⟩ := List.map_eq_cons_iff.mp hsame
    obtain rfl : q = f r := hfirst
    obtain ⟨m, rfl⟩ := Nat.exists_eq_succ_of_ne_zero (hq'.ne_zero h.right_forest)
    have helement' := (h.hasElement (hinside (n + 1, r) List.mem_cons_self)).trans helement
    rw [firstElement?_element n rest helement, firstElement?_element m rest' helement']
    rfl
  | case4 n r rest hvirtual ih =>
    obtain ⟨⟨m, q⟩, rest', rfl, hfirst, hrest⟩ := List.map_eq_cons_iff.mp hsame
    obtain rfl : q = f r := hfirst
    obtain ⟨m, rfl⟩ := Nat.exists_eq_succ_of_ne_zero (hq'.ne_zero h.right_forest)
    obtain ⟨hr, hinside⟩ := List.forall_mem_cons.mp hinside
    have hvirtual' : ¬t.hasElement (f r) = true := by rwa [h.hasElement hr]
    rw [firstElement?_virtual n rest hvirtual, firstElement?_virtual m rest' hvirtual']
    refine ih (hq.advance h.left_forest) (hq'.advance h.right_forest) ?_ ?_
    · intro entry hentry
      rcases List.mem_append.mp hentry with hentry | hentry
      · exact hinside entry hentry
      · obtain ⟨c, hc, rfl⟩ := List.mem_map.mp hentry
        exact h.child hr hc
    · rw [List.map_append, List.map_append, hrest, h.children r hr]
      simp

theorem elementBelow (h : Twins f s a t b) (hr : s.ClimbsTo r a) :
    t.elementBelow? (f r) = (s.elementBelow? r).map f := by
  refine h.firstElement (.start (h.live hr)) (.start ((h.contains hr).trans (h.live hr))) ?_ rfl
  exact fun entry hentry => List.mem_singleton.mp hentry ▸ hr

end Twins

end SceneSelect.Scene
