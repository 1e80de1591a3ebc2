import Mathlib.Data.List.Nodup
import SceneSelect.Proofs.Scene.Links

/-!
# `Proofs/Scene/Forest.lean` — a scene is a forest

`IsForest` says what the links of a scene promise: every node is where its parent, or the list of
roots, says it is, and nowhere else.

While a subtree is taken out, and between the making of a node and its being listed, some nodes are
live and listed nowhere. `Linked s pending` is the promise with exactly these nodes set aside, and
`Linked s []` is the promise itself (`Linked.isForest`). Each step of an edit moves nodes between the
lists and `pending`:

* `Linked.detach` takes a node off its list and makes it pending;
* `Linked.take` takes a pending node out of the arena, and its children become pending;
* `Linked.insert` makes a node, pending;
* `Linked.attach` and `Linked.mount` put the pending node on a list.
-/

set_option autoImplicit false

namespace SceneSelect.Scene

/-- The links of a scene agree with each other. -/
structure IsForest (s : Scene) : Prop where
  /-- a child is live, and the node that lists it is its parent -/
  children_live : ∀ p c, c ∈ s.children p → s.contains c = true ∧ s.parent? c = some p
  /-- a node with a parent is listed there, once, and nowhere else -/
  listed_once : ∀ r p, s.parent? r = some p →
    (s.children p).count r = 1 ∧ ∀ q, q ≠ p → r ∉ s.children q
  /-- the roots are the nodes without a parent -/
  mem_roots : ∀ r, r ∈ s.rootRefs ↔ s.contains r = true ∧ s.parent? r = none
  roots_once : s.rootRefs.Nodup
  keys_distinct : (s.roots.map Prod.fst).Nodup
  /-- the way up from a node ends at a root -/
  grounded : ∀ r, s.contains r = true → ∃ root ∈ s.rootRefs, s.ClimbsTo r root
  /-- the number of nodes is how many there are -/
  sized : ∃ refs : List Ref, refs.Nodup ∧ (∀ r, r ∈ refs ↔ s.contains r = true) ∧
    s.size = refs.length
  /-- nothing refers to an empty slot, so nothing will refer to the next node that is put there -/
  no_stale : ∀ r, ¬s.contains r = true →
    r ∉ s.rootRefs ∧ ∀ q, r ∉ s.children q ∧ s.parent? q ≠ some r

/-- A change to what the nodes say about themselves leaves a forest as it is. -/
theorem IsForest.modify_label {s : Scene} (hs : s.IsForest) (r : Ref) {change : Node → Node}
    (hparent : ∀ n, (change n).parent = n.parent)
    (hchildren : ∀ n, (change n).children = n.children) :
    (s.withNodes (s.nodes.modify r change)).IsForest := by
  have hlive : (s.withNodes (s.nodes.modify r change)).contains = s.contains :=
    funext contains_modify
  have hparents := funext (parent_modify (s := s) (p := r) hparent)
  have hlists := funext (children_modify (s := s) (p := r) hchildren)
  have hsize : (s.withNodes (s.nodes.modify r change)).size = s.size := s.nodes.live_modify r change
  have hroots : (s.withNodes (s.nodes.modify r change)).roots = s.roots := rfl
  generalize s.withNodes (s.nodes.modify r change) = t at *
  have hrefs : t.rootRefs = s.rootRefs := congrArg (List.map Prod.snd) hroots
  constructor
  case children_live => rw [hlists, hlive, hparents]; exact hs.children_live
  case listed_once => rw [hlists, hparents]; exact hs.listed_once
  case mem_roots => rw [hrefs, hlive, hparents]; exact hs.mem_roots
  case roots_once => rw [hrefs]; exact hs.roots_once
  case keys_distinct => rw [hroots]; exact hs.keys_distinct
  case grounded => rw [hlive, hrefs, climbsTo_congr hparents]; exact hs.grounded
  case sized => rw [hlive, hsize]; exact hs.sized
  case no_stale => rw [hlive, hrefs, hlists, hparents]; exact hs.no_stale

/-- The links agree but for the pending nodes, which are live and listed nowhere. -/
structure Linked (s : Scene) (pending : List Ref) : Prop where
  arena : s.nodes.WellFormed
  mem_children : ∀ {p c : Ref}, c ∈ s.children p ↔ s.parent? c = some p ∧ c ∉ pending
  mem_roots : ∀ {r : Ref}, r ∈ s.rootRefs ↔
    (s.contains r = true ∧ s.parent? r = none) ∧ r ∉ pending
  children_nodup : ∀ p, (s.children p).Nodup
  roots_nodup : s.rootRefs.Nodup
  keys_nodup : (s.roots.map Prod.fst).Nodup
  pending_nodup : pending.Nodup
  pending_live : ∀ {r : Ref}, r ∈ pending → s.contains r = true
  grounded : ∀ {r : Ref}, s.contains r = true →
    ∃ stop, s.ClimbsTo r stop ∧ (stop ∈ s.rootRefs ∨ stop ∈ pending)

namespace Linked

variable {s : Scene} {pending : List Ref}

/-! ## What the promise says -/

theorem parent_of_child (h : Linked s pending) {p c : Ref} (hc : c ∈ s.children p) :
    s.parent? c = some p :=
  (h.mem_children.mp hc).1

theorem root_live (h : Linked s pending) {r : Ref} (hr : r ∈ s.rootRefs) :
    s.contains r = true ∧ s.parent? r = none :=
  (h.mem_roots.mp hr).1

theorem listed (h : Linked s []) {r p : Ref} (hp : s.parent? r = some p) : r ∈ s.children p :=
  h.mem_children.mpr ⟨hp, List.not_mem_nil⟩

theorem parent_live (h : Linked s []) {r p : Ref} (hp : s.parent? r = some p) :
    s.contains p = true :=
  contains_of_child (h.listed hp)

theorem grounded_at_root (h : Linked s []) {r : Ref} (hr : s.contains r = true) :
    ∃ root ∈ s.rootRefs, s.ClimbsTo r root := by
  obtain ⟨stop, hclimb, hstop⟩ := h.grounded hr
  exact ⟨stop, hstop.resolve_right List.not_mem_nil, hclimb⟩

theorem isForest (h : Linked s []) : s.IsForest where
  children_live p c hc := by
    have hp := h.parent_of_child hc
    exact ⟨contains_of_parent hp, hp⟩
  listed_once r p hp := by
    refine ⟨List.count_eq_one_of_mem (h.children_nodup p) (h.listed hp), ?_⟩
    intro q hq hmem
    have hother := h.parent_of_child hmem
    rw [hp] at hother
    exact hq (Option.some.inj hother).symm
  mem_roots r := by
    rw [h.mem_roots]
    exact and_iff_left List.not_mem_nil
  roots_once := h.roots_nodup
  keys_distinct := h.keys_nodup
  grounded _ hr := h.grounded_at_root hr
  sized := by
    refine ⟨s.nodes.toList.map Prod.fst, s.nodes.nodup_refs, ?_, ?_⟩
    · intro r
      rw [contains_iff, List.mem_map]
      constructor
      · rintro ⟨⟨r, node⟩, hmem, rfl⟩
        exact ⟨node, Arena.mem_toList.mp hmem⟩
      · rintro ⟨node, hnode⟩
        exact ⟨(r, node), Arena.mem_toList.mpr hnode, rfl⟩
    · rw [List.length_map, Arena.length_toList]
      exact h.arena.counted
  no_stale r hr := by
    refine ⟨fun hmem => hr (h.root_live hmem).1, fun q => ⟨fun hmem => ?_, fun hp => ?_⟩⟩
    · exact hr (contains_of_parent (h.parent_of_child hmem))
    · exact hr (h.parent_live hp)

theorem empty : Linked {} [] where
  arena := Arena.wellFormed_empty
  mem_children := by simp [children, parent?, node?, Arena.get?]
  mem_roots := by simp [rootRefs, contains, Arena.contains, Arena.get?]
  children_nodup := by simp [children, node?, Arena.get?]
  roots_nodup := List.nodup_nil
  keys_nodup := List.nodup_nil
  pending_nodup := List.nodup_nil
  pending_live h := absurd h List.not_mem_nil
  grounded h := absurd h (by simp [contains, Arena.contains, Arena.get?])

/-! ## Changes that leave the links alone -/

theorem congr {t : Scene} (h : Linked s pending) (harena : t.nodes.WellFormed)
    (hlive : t.contains = s.contains) (hparent : t.parent? = s.parent?)
    (hchildren : t.children = s.children) (hroots : t.roots = s.roots) : Linked t pending := by
  have hrefs : t.rootRefs = s.rootRefs := congrArg (List.map Prod.snd) hroots
  constructor
  case arena => exact harena
  case mem_children => rw [hchildren, hparent]; exact h.mem_children
  case mem_roots => rw [hlive, hparent, hrefs]; exact h.mem_roots
  case children_nodup => rw [hchildren]; exact h.children_nodup
  case roots_nodup => rw [hrefs]; exact h.roots_nodup
  case keys_nodup => rw [hroots]; exact h.keys_nodup
  case pending_nodup => exact h.pending_nodup
  case pending_live => rw [hlive]; exact h.pending_live
  case grounded => rw [hlive, climbsTo_congr hparent, hrefs]; exact h.grounded

theorem modify_label (h : Linked s []) (r : Ref) {change : Node → Node}
    (hparent : ∀ n, (change n).parent = n.parent)
    (hchildren : ∀ n, (change n).children = n.children) :
    Linked (s.withNodes (s.nodes.modify r change)) [] :=
  h.congr (h.arena.modify r change) (funext contains_modify) (funext (parent_modify hparent))
    (funext (children_modify hchildren)) rfl

/-! ## Off the lists -/

/-- Taking a live reference off every list makes it pending. -/
theorem setAside {t : Scene} {r : Ref} (h : Linked s []) (hr : s.contains r = true)
    (harena : t.nodes.WellFormed) (hlive : t.contains = s.contains)
    (hparent : t.parent? = s.parent?)
    (hchildren : ∀ p c, c ∈ t.children p ↔ c ∈ s.children p ∧ c ≠ r)
    (hnodup : ∀ p, (t.children p).Nodup) (hroots : t.roots.Sublist s.roots)
    (hrefs : ∀ c, c ∈ t.rootRefs ↔ c ∈ s.rootRefs ∧ c ≠ r) : Linked t [r] := by
  constructor
  case arena => exact harena
  case mem_children =>
    intro p c
    rw [hchildren, h.mem_children, hparent, List.mem_singleton]
    simp
  case mem_roots =>
    intro q
    rw [hrefs, h.mem_roots, hlive, hparent, List.mem_singleton]
    simp
  case children_nodup => exact hnodup
  case roots_nodup => exact h.roots_nodup.sublist (hroots.map Prod.snd)
  case keys_nodup => exact h.keys_nodup.sublist (hroots.map Prod.fst)
  case pending_nodup => exact List.nodup_singleton r
  case pending_live =>
    intro q hq
    rw [List.mem_singleton.mp hq, hlive]
    exact hr
  case grounded =>
    intro q hq
    rw [hlive] at hq
    rw [climbsTo_congr hparent]
    obtain ⟨root, hroot, hclimb⟩ := h.grounded_at_root hq
    by_cases heq : root = r
    · exact ⟨root, hclimb, Or.inr (List.mem_singleton.mpr heq)⟩
    · exact ⟨root, hclimb, Or.inl ((hrefs root).mpr ⟨hroot, heq⟩)⟩

theorem detach (h : Linked s []) {r : Ref} (hr : s.contains r = true) :
    Linked (s.detach r (s.parent? r)) [r] := by
  cases hp : s.parent? r with
  | some p =>
    obtain ⟨node, hnode⟩ := contains_iff.mp (h.parent_live hp)
    let change : Node → Node := fun n => n.withoutChild r
    have hself : (s.withNodes (s.nodes.modify p change)).children p = (s.children p).erase r := by
      rw [children_modify_self hnode, children_of_node hnode]
      rfl
    have hother : ∀ q, q ≠ p →
        (s.withNodes (s.nodes.modify p change)).children q = s.children q :=
      fun q hq => children_modify_ne hq
    refine h.setAside (t := s.withNodes (s.nodes.modify p change)) hr (h.arena.modify p change)
      (funext contains_modify) (funext (parent_modify fun _ => rfl)) ?_ ?_
      (List.Sublist.refl _) ?_
    · intro q c
      by_cases hq : q = p
      · rw [hq, hself, (h.children_nodup p).mem_erase_iff, and_comm]
      · -- the reference stands on the list of its parent only
        rw [hother q hq]
        refine (and_iff_left_of_imp fun hc heq => hq ?_).symm
        have hback := h.parent_of_child hc
        rw [heq, hp] at hback
        exact (Option.some.inj hback).symm
    · intro q
      by_cases hq : q = p
      · rw [hq, hself]
        exact (h.children_nodup p).erase r
      · rw [hother q hq]
        exact h.children_nodup q
    · intro c
      refine (and_iff_left_of_imp fun hc heq => ?_).symm
      have hnone := (h.root_live hc).2
      rw [heq, hp] at hnone
      exact absurd hnone (by simp)
  | none =>
    refine h.setAside (t := s.detach r none) hr h.arena rfl rfl ?_ h.children_nodup
      List.filter_sublist ?_
    · intro p c
      refine (and_iff_left_of_imp fun hc heq => ?_).symm
      have hback := h.parent_of_child hc
      rw [heq, hp] at hback
      exact absurd hback (by simp)
    · intro c
      simp only [Scene.detach, rootRefs, List.mem_map, List.mem_filter]
      constructor
      · rintro ⟨root, ⟨hroot, hne⟩, rfl⟩
        exact ⟨⟨root, hroot, rfl⟩, by simpa using hne⟩
      · rintro ⟨⟨root, hroot, rfl⟩, hne⟩
        exact ⟨root, ⟨hroot, by simpa using hne⟩, rfl⟩

/-! ## Out of the arena -/

/-- The way up that led through a node stops at the child below it when the node is gone. -/
theorem climb_without {t : Scene} {r : Ref} {rest : List Ref} (h : Linked s (r :: rest))
    (hoff : AgreeOff s t r) {q : Ref} (hq : s.contains q = true) (hqr : q ≠ r) :
    ∃ stop, t.ClimbsTo q stop ∧ (stop ∈ s.rootRefs ∨ stop ∈ s.children r ∨ stop ∈ rest) := by
  obtain ⟨stop, hclimb, hstop⟩ := h.grounded hq
  induction hclimb using Relation.ReflTransGen.head_induction_on with
  | refl =>
    refine ⟨stop, .refl, hstop.imp_right fun hmem => Or.inr ?_⟩
    exact (List.mem_cons.mp hmem).resolve_left hqr
  | @head q p hp _ ih =>
    by_cases hrest : q ∈ rest
    · exact ⟨q, .refl, Or.inr (Or.inr hrest)⟩
    · have hlisted : q ∈ s.children p :=
        h.mem_children.mpr ⟨hp, List.not_mem_cons_of_ne_of_not_mem hqr hrest⟩
      by_cases hpr : p = r
      · exact ⟨q, .refl, Or.inr (Or.inl (hpr ▸ hlisted))⟩
      · obtain ⟨stop', hclimb', hstop'⟩ := ih (contains_of_child hlisted) hpr
        exact ⟨stop', .head ((hoff.parent hqr).trans hp) hclimb', hstop'⟩

theorem take {r : Ref} {rest : List Ref} (h : Linked s (r :: rest)) :
    Linked (s.withNodes (s.nodes.remove r).2) ((s.children r).reverse ++ rest) := by
  obtain ⟨hrest, hrestNodup⟩ := List.nodup_cons.mp h.pending_nodup
  have harena : (s.withNodes (s.nodes.remove r).2).nodes.WellFormed := h.arena.remove r
  have hoff := agreeOff_remove s r
  have hgone := not_contains_remove s r
  have hroots : (s.withNodes (s.nodes.remove r).2).roots = s.roots := rfl
  generalize s.withNodes (s.nodes.remove r).2 = t at harena hoff hgone hroots ⊢
  have hrefs : t.rootRefs = s.rootRefs := congrArg (List.map Prod.snd) hroots
  have hne : ∀ {q}, t.contains q = true → q ≠ r := fun hq heq => hgone (heq ▸ hq)
  have hpending : ∀ {q}, q ∈ (s.children r).reverse ++ rest ↔ q ∈ s.children r ∨ q ∈ rest := by
    intro q
    rw [List.mem_append, List.mem_reverse]
  -- a child of the removed node is no other pending one: those are listed nowhere
  have hchild : ∀ {c}, c ∈ s.children r → s.parent? c = some r ∧ c ≠ r ∧ c ∉ rest := by
    intro c hc
    obtain ⟨hp, hnot⟩ := h.mem_children.mp hc
    exact ⟨hp, List.ne_of_not_mem_cons hnot, List.not_mem_of_not_mem_cons hnot⟩
  constructor
  case arena => exact harena
  case mem_children =>
    intro p c
    rw [hpending, not_or]
    constructor
    · intro hc
      have hpr : p ≠ r := hne (contains_of_child hc)
      rw [hoff.children hpr] at hc
      obtain ⟨hp, hnot⟩ := h.mem_children.mp hc
      rw [hoff.parent (List.ne_of_not_mem_cons hnot)]
      refine ⟨hp, fun hr => hpr ?_, List.not_mem_of_not_mem_cons hnot⟩
      exact Option.some.inj (hp.symm.trans (hchild hr).1)
    · rintro ⟨hp, hnotChild, hnotRest⟩
      have hcr : c ≠ r := hne (contains_of_parent hp)
      rw [hoff.parent hcr] at hp
      have hc := h.mem_children.mpr ⟨hp, List.not_mem_cons_of_ne_of_not_mem hcr hnotRest⟩
      rw [hoff.children fun heq => hnotChild (heq ▸ hc)]
      exact hc
  case mem_roots =>
    intro q
    rw [hrefs, hpending, not_or]
    constructor
    · intro hq
      obtain ⟨⟨hqlive, hnone⟩, hnot⟩ := h.mem_roots.mp hq
      have hqr : q ≠ r := List.ne_of_not_mem_cons hnot
      rw [hoff.contains hqr, hoff.parent hqr]
      refine ⟨⟨hqlive, hnone⟩, fun hr => ?_, List.not_mem_of_not_mem_cons hnot⟩
      exact absurd ((hchild hr).1.symm.trans hnone) (by simp)
    · rintro ⟨⟨hqlive, hnone⟩, -, hnotRest⟩
      have hqr : q ≠ r := hne hqlive
      rw [hoff.contains hqr] at hqlive
      rw [hoff.parent hqr] at hnone
      exact h.mem_roots.mpr
        ⟨⟨hqlive, hnone⟩, List.not_mem_cons_of_ne_of_not_mem hqr hnotRest⟩
  case children_nodup =>
    intro p
    by_cases hp : p = r
    · rw [hp, children_of_dead hgone]
      exact List.nodup_nil
    · rw [hoff.children hp]
      exact h.children_nodup p
  case roots_nodup => rw [hrefs]; exact h.roots_nodup
  case keys_nodup => rw [hroots]; exact h.keys_nodup
  case pending_nodup =>
    refine List.nodup_append.mpr ⟨List.nodup_reverse.mpr (h.children_nodup r), hrestNodup, ?_⟩
    intro c hc d hd heq
    exact (hchild (List.mem_reverse.mp hc)).2.2 (heq ▸ hd)
  case pending_live =>
    intro q hq
    rcases hpending.mp hq with hq | hq
    · obtain ⟨hp, hqr, -⟩ := hchild hq
      rw [hoff.contains hqr]
      exact contains_of_parent hp
    · rw [hoff.contains fun heq => hrest (heq ▸ hq)]
      exact h.pending_live (List.mem_cons_of_mem r hq)
  case grounded =>
    intro q hq
    have hqr : q ≠ r := hne hq
    rw [hoff.contains hqr] at hq
    obtain ⟨stop, hclimb, hstop⟩ := h.climb_without hoff hq hqr
    rw [hrefs]
    exact ⟨stop, hclimb, hstop.imp_right hpending.mpr⟩

/-! ## Into the arena -/

theorem dead_insert (h : Linked s []) (node : Node) :
    ¬s.contains (s.nodes.insert node).1 = true := by
  rw [contains_iff, node?, h.arena.get?_insert_ref node]
  simp

theorem insert (h : Linked s []) (node : Node) (hleaf : node.children = []) :
    Linked (s.withNodes (s.nodes.insert node).2) [(s.nodes.insert node).1] := by
  have harena : (s.withNodes (s.nodes.insert node).2).nodes.WellFormed := h.arena.insert node
  have hdead := h.dead_insert node
  have hoff := agreeOff_insert h.arena node
  have hhere := node?_insert_self h.arena node
  have hroots : (s.withNodes (s.nodes.insert node).2).roots = s.roots := rfl
  generalize (s.nodes.insert node).1 = r at hdead hoff hhere ⊢
  generalize s.withNodes (s.nodes.insert node).2 = t at harena hoff hhere hroots ⊢
  have hrefs : t.rootRefs = s.rootRefs := congrArg (List.map Prod.snd) hroots
  have hne : ∀ {q}, s.contains q = true → q ≠ r := fun hq heq => hdead (heq ▸ hq)
  have hchildren : ∀ q, t.children q = s.children q := by
    intro q
    by_cases hq : q = r
    · rw [hq, children_of_dead hdead, children_of_node hhere, hleaf]
    · exact hoff.children hq
  constructor
  case arena => exact harena
  case mem_children =>
    intro p c
    rw [hchildren, List.mem_singleton]
    constructor
    · intro hc
      have hp := h.parent_of_child hc
      have hcr : c ≠ r := hne (contains_of_parent hp)
      exact ⟨(hoff.parent hcr).trans hp, hcr⟩
    · rintro ⟨hp, hcr⟩
      exact h.listed ((hoff.parent hcr).symm.trans hp)
  case mem_roots =>
    intro q
    rw [hrefs, List.mem_singleton]
    constructor
    · intro hq
      obtain ⟨hqlive, hnone⟩ := h.root_live hq
      have hqr : q ≠ r := hne hqlive
      exact ⟨⟨(hoff.contains hqr).trans hqlive, (hoff.parent hqr).trans hnone⟩, hqr⟩
    · rintro ⟨⟨hqlive, hnone⟩, hqr⟩
      exact h.mem_roots.mpr ⟨⟨(hoff.contains hqr).symm.trans hqlive, (hoff.parent hqr).symm.trans hnone⟩,
        List.not_mem_nil⟩
  case children_nodup =>
    intro p
    rw [hchildren]
    exact h.children_nodup p
  case roots_nodup => rw [hrefs]; exact h.roots_nodup
  case keys_nodup => rw [hroots]; exact h.keys_nodup
  case pending_nodup => exact List.nodup_singleton r
  case pending_live =>
    intro q hq
    rw [List.mem_singleton.mp hq]
    exact contains_iff.mpr ⟨node, hhere⟩
  case grounded =>
    intro q hq
    rw [hrefs]
    by_cases hqr : q = r
    · exact ⟨q, .refl, Or.inr (List.mem_singleton.mpr hqr)⟩
    · rw [hoff.contains hqr] at hq
      obtain ⟨root, hroot, hclimb⟩ := h.grounded_at_root hq
      refine ⟨root, hclimb.mono fun a b hab => ?_, Or.inl hroot⟩
      exact (hoff.parent (hne (contains_of_parent hab))).trans hab

/-- A node that is made under a live parent, or under none, is nobody's parent. -/
theorem insert_leaf {node : Node} (h : Linked s [])
    (hp : ∀ p, node.parent = some p → s.contains p = true) (q : Ref) :
    (s.withNodes (s.nodes.insert node).2).parent? q ≠ some (s.nodes.insert node).1 := by
  have hdead := h.dead_insert node
  intro hq
  by_cases hqr : q = (s.nodes.insert node).1
  · rw [hqr, parent_of_node (node?_insert_self h.arena node)] at hq
    exact hdead (hp _ hq)
  · rw [(agreeOff_insert h.arena node).parent hqr] at hq
    exact hdead (h.parent_live hq)

/-! ## Onto a list -/

/-- No way up but its own passes a node without children, so the others end at a root. -/
theorem grounded_beside {r q : Ref} (h : Linked s [r]) (hleaf : ∀ q, s.parent? q ≠ some r)
    (hq : s.contains q = true) (hqr : q ≠ r) : ∃ root ∈ s.rootRefs, s.ClimbsTo q root := by
  obtain ⟨stop, hclimb, hstop⟩ := h.grounded hq
  refine ⟨stop, hstop.resolve_right fun hr => ?_, hclimb⟩
  rw [List.mem_singleton.mp hr] at hclimb
  rcases Relation.ReflTransGen.cases_tail hclimb with heq | ⟨below, -, hlast⟩
  · exact hqr heq.symm
  · exact hleaf below hlast

theorem attach {r p : Ref} (h : Linked s [r]) (hp : s.parent? r = some p)
    (hlive : s.contains p = true) (hleaf : ∀ q, s.parent? q ≠ some r) :
    Linked (s.withNodes (s.nodes.modify p fun n => n.withChild r)) [] := by
  have hunlisted : ∀ q, r ∉ s.children q := fun q hmem =>
    (h.mem_children.mp hmem).2 (List.mem_singleton.mpr rfl)
  have harena : (s.withNodes (s.nodes.modify p fun n => n.withChild r)).nodes.WellFormed :=
    h.arena.modify p fun n => n.withChild r
  have hself : (s.withNodes (s.nodes.modify p fun n => n.withChild r)).children p =
      s.children p ++ [r] := by
    obtain ⟨node, hnode⟩ := contains_iff.mp hlive
    have hnot := hunlisted p
    rw [children_of_node hnode] at hnot ⊢
    rw [children_modify_self hnode, Node.withChild, if_neg hnot]
  have hother : ∀ q, q ≠ p →
      (s.withNodes (s.nodes.modify p fun n => n.withChild r)).children q = s.children q :=
    fun q hq => children_modify_ne hq
  have hcontains : (s.withNodes (s.nodes.modify p fun n => n.withChild r)).contains =
      s.contains := funext contains_modify
  have hparent : (s.withNodes (s.nodes.modify p fun n => n.withChild r)).parent? = s.parent? := by
    refine funext (parent_modify fun n => ?_)
    rw [Node.withChild]
    split <;> rfl
  have hroots : (s.withNodes (s.nodes.modify p fun n => n.withChild r)).roots = s.roots := rfl
  generalize s.withNodes (s.nodes.modify p fun n => n.withChild r) = t at *
  have hrefs : t.rootRefs = s.rootRefs := congrArg (List.map Prod.snd) hroots
  constructor
  case arena => exact harena
  case mem_children =>
    intro q c
    rw [hparent, and_iff_left List.not_mem_nil]
    by_cases hcr : c = r
    · subst hcr
      rw [hp]
      by_cases hq : q = p
      · rw [hq, hself]
        simp
      · rw [hother q hq]
        exact iff_of_false (hunlisted q) fun heq => hq (Option.some.inj heq).symm
    · have hold : c ∈ s.children q ↔ s.parent? c = some q := by
        rw [h.mem_children, and_iff_left (mt List.mem_singleton.mp hcr)]
      rw [← hold]
      by_cases hq : q = p
      · rw [hq, hself, List.mem_append, List.mem_singleton, or_iff_left hcr]
      · rw [hother q hq]
  case mem_roots =>
    intro q
    rw [hrefs, h.mem_roots, hcontains, hparent, and_iff_left List.not_mem_nil]
    refine and_iff_left_of_imp fun hq hqr => ?_
    rw [List.mem_singleton.mp hqr, hp] at hq
    exact absurd hq.2 (by simp)
  case children_nodup =>
    intro q
    by_cases hq : q = p
    · rw [hq, hself]
      exact List.nodup_append.mpr ⟨h.children_nodup p, List.nodup_singleton r, fun c hc d hd heq =>
        hunlisted p (List.mem_singleton.mp hd ▸ heq ▸ hc)⟩
    · rw [hother q hq]
      exact h.children_nodup q
  case roots_nodup => rw [hrefs]; exact h.roots_nodup
  case keys_nodup => rw [hroots]; exact h.keys_nodup
  case pending_nodup => exact List.nodup_nil
  case pending_live => exact fun hq => absurd hq List.not_mem_nil
  case grounded =>
    intro q hq
    rw [hcontains] at hq
    rw [climbsTo_congr hparent, hrefs]
    by_cases hqr : q = r
    · have hpr : p ≠ r := fun heq => hleaf r (heq ▸ hp)
      obtain ⟨root, hroot, hclimb⟩ := h.grounded_beside hleaf hlive hpr
      exact ⟨root, .head (hqr ▸ hp) hclimb, Or.inl hroot⟩
    · obtain ⟨root, hroot, hclimb⟩ := h.grounded_beside hleaf hq hqr
      exact ⟨root, hclimb, Or.inl hroot⟩

theorem mount {r : Ref} {key : String} (h : Linked s [r]) (hp : s.parent? r = none)
    (hkey : key ∉ s.roots.map Prod.fst) :
    Linked { s with roots := s.roots ++ [(key, r)] } [] := by
  have hunmounted : r ∉ s.rootRefs := fun hmem =>
    (h.mem_roots.mp hmem).2 (List.mem_singleton.mpr rfl)
  have hrefs : ({ s with roots := s.roots ++ [(key, r)] } : Scene).rootRefs = s.rootRefs ++ [r] :=
    List.map_append
  constructor
  case arena => exact h.arena
  case mem_children =>
    intro p c
    rw [and_iff_left List.not_mem_nil]
    refine h.mem_children.trans (and_iff_left_of_imp fun hc hcr => ?_)
    rw [List.mem_singleton.mp hcr, hp] at hc
    exact absurd hc (by simp)
  case mem_roots =>
    intro q
    rw [hrefs, List.mem_append, h.mem_roots, and_iff_left List.not_mem_nil]
    by_cases hqr : q ∈ [r]
    · refine iff_of_true (Or.inr hqr) ⟨h.pending_live hqr, ?_⟩
      rw [List.mem_singleton.mp hqr]
      exact hp
    · rw [or_iff_left hqr, and_iff_left hqr]
      exact Iff.rfl
  case children_nodup => exact h.children_nodup
  case roots_nodup =>
    rw [hrefs]
    exact List.nodup_append.mpr ⟨h.roots_nodup, List.nodup_singleton r, fun c hc d hd heq =>
      hunmounted (List.mem_singleton.mp hd ▸ heq ▸ hc)⟩
  case keys_nodup =>
    rw [List.map_append]
    refine List.nodup_append.mpr ⟨h.keys_nodup, List.nodup_singleton key, fun c hc d hd heq => ?_⟩
    obtain rfl : d = key := List.mem_singleton.mp hd
    exact hkey (heq ▸ hc)
  case pending_nodup => exact List.nodup_nil
  case pending_live => exact fun hq => absurd hq List.not_mem_nil
  case grounded =>
    intro q hq
    obtain ⟨stop, hclimb, hstop⟩ := h.grounded hq
    rw [hrefs]
    exact ⟨stop, hclimb, Or.inl (List.mem_append.mpr hstop)⟩

end Linked

end SceneSelect.Scene
