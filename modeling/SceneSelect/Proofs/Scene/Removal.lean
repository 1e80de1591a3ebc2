import SceneSelect.Proofs.Scene.Edits

/-!
# `Proofs/Scene/Removal.lean` — what a removal takes

`link` and `unlink` let a scene be any graph: a node may be listed by several others, below itself, or
after it is gone. A removal has to get by with that. It works off a stack on which one reference may stand
many times, and frees slots while it walks, so that what it looks at next is a different scene from the one
it was asked about.

> **All the same a removal takes the live nodes that the links lead to from the given one, each once, and
> no others; and of the rest it changes nothing but the one list that the given node was on**
> (`remove_reachable`).

The reason is that a node which was taken need not be walked through again: a way that passes it goes on
from one of its children, and these are on the stack (`leadsTo_without`). What the theorem asks of the scene
is `Sound`, which every edit keeps, `link` and `unlink` included.
-/

set_option autoImplicit false

namespace SceneSelect.Scene

/-! ## What every edit keeps -/

/-- The free slots are in order, and no node lists a reference twice. Where the references lead does not
matter. -/
structure Sound (s : Scene) : Prop where
  arena : s.nodes.WellFormed
  children_nodup : ∀ p, (s.children p).Nodup

namespace Sound

variable {s : Scene}

theorem of_linked {pending : List Ref} (h : Linked s pending) : s.Sound :=
  ⟨h.arena, h.children_nodup⟩

theorem remount (h : s.Sound) (roots : List (String × Ref)) : Sound ⟨s.nodes, roots⟩ :=
  ⟨h.arena, h.children_nodup⟩

/-- A change that leaves a list without repeats at the one node that it touches. -/
theorem agreeOff {t : Scene} {r : Ref} (h : s.Sound) (harena : t.nodes.WellFormed)
    (hoff : AgreeOff s t r) (hr : (t.children r).Nodup) : t.Sound := by
  refine ⟨harena, fun p => ?_⟩
  by_cases hp : p = r
  · rw [hp]
    exact hr
  · rw [hoff.children hp]
    exact h.children_nodup p

theorem modify (h : s.Sound) (p : Ref) {change : Node → Node}
    (hchange : ∀ n, n.children.Nodup → (change n).children.Nodup) :
    (s.withNodes (s.nodes.modify p change)).Sound := by
  refine h.agreeOff (h.arena.modify p change) (agreeOff_modify s p change) ?_
  cases hnode : s.node? p with
  | none =>
    have hdead := not_contains_of_none hnode
    rw [children_of_dead fun hlive => hdead ((contains_modify p).symm.trans hlive)]
    exact List.nodup_nil
  | some node =>
    rw [children_modify_self hnode]
    exact hchange node (children_of_node hnode ▸ h.children_nodup p)

theorem nodup_withChild {n : Node} (h : n.children.Nodup) (child : Ref) :
    (n.withChild child).children.Nodup := by
  rw [Node.withChild]
  split
  · exact h
  · rename_i hnew
    exact List.nodup_append.mpr ⟨h, List.nodup_singleton child, fun c hc d hd heq =>
      hnew (List.mem_singleton.mp hd ▸ heq ▸ hc)⟩

theorem take (h : s.Sound) (r : Ref) : (s.withNodes (s.nodes.remove r).2).Sound := by
  refine h.agreeOff (h.arena.remove r) (agreeOff_remove s r) ?_
  rw [children_of_dead (not_contains_remove s r)]
  exact List.nodup_nil

theorem insert (h : s.Sound) (node : Node) (hleaf : node.children = []) :
    (s.withNodes (s.nodes.insert node).2).Sound := by
  refine h.agreeOff (h.arena.insert node) (agreeOff_insert h.arena node) ?_
  rw [children_of_node (node?_insert_self h.arena node), hleaf]
  exact List.nodup_nil

theorem detach (h : s.Sound) (r : Ref) : (s.detach r (s.parent? r)).Sound := by
  cases s.parent? r with
  | none => exact h.remount _
  | some p => exact h.modify p fun n hn => hn.erase r

theorem remove (h : s.Sound) (r : Ref) : (s.remove r).2.Sound :=
  remove_keeps (fun _ h => h.detach) (fun _ h => h.take) h r

theorem mountRoot (h : s.Sound) (key : String) (label : Label) : (s.mountRoot key label).2.Sound := by
  have place : ∀ t : Scene, t.Sound →
      Sound ⟨(t.nodes.insert { label with }).2,
        t.roots ++ [(key, (t.nodes.insert { label with }).1)]⟩ :=
    fun t ht => (ht.insert { label with } rfl).remount _
  rw [Scene.mountRoot]
  cases s.root? key with
  | none => exact place s h
  | some old => exact place _ (h.remove old)

theorem appendChild (h : s.Sound) (parent : Ref) (label : Label) :
    (s.appendChild parent label).2.Sound := by
  rw [Scene.appendChild]
  split
  · exact (h.insert { label with parent := some parent } rfl).modify parent fun n hn =>
      nodup_withChild hn _
  · exact h

theorem edit (h : s.Sound) (e : Edit) : (s.edit e).2.Sound := by
  cases e with
  | mountRoot key label => exact h.mountRoot key label
  | appendChild parent label => exact h.appendChild parent label
  | appendSnapshot parent snapshot => exact appendSnapshot_keeps (fun _ h => h.appendChild) h parent snapshot
  | remove r => exact h.remove r
  | link parent child => exact h.modify parent fun n hn => nodup_withChild hn child
  | unlink parent child => exact h.modify parent fun n hn => hn.erase child
  | relabel r change => exact h.modify r fun n hn => hn

/-- Every scene that edits lead to, whatever they link and unlink. -/
theorem editAll (h : s.Sound) (edits : List Edit) : (s.editAll edits).Sound := by
  induction edits generalizing s with
  | nil => exact h
  | cons e rest ih => exact ih (h.edit e)

end Sound

/-! ## Ways that pass a node -/

/-- A way from a pending node that passes `r` goes on from a child of `r` without it. -/
theorem leadsTo_without {s t : Scene} {r q : Ref} {rest : List Ref} (hoff : AgreeOff s t r)
    (hq : q ≠ r) (h : ∃ x ∈ r :: rest, s.LeadsTo x q) :
    ∃ x ∈ (s.children r).reverse ++ rest, t.LeadsTo x q := by
  obtain ⟨x, hx, hleads⟩ := h
  induction hleads with
  | refl => exact ⟨x, List.mem_append_right _ ((List.mem_cons.mp hx).resolve_left hq), .refl⟩
  | @tail p q _ hchild ih =>
    by_cases hp : p = r
    · subst hp
      exact ⟨q, List.mem_append_left _ (List.mem_reverse.mpr hchild), .refl⟩
    · obtain ⟨y, hy, hbefore⟩ := ih hp
      exact ⟨y, hy, hbefore.tail ((hoff.children hp).symm ▸ hchild)⟩

/-- What is led to without `r` is led to with it. -/
theorem LeadsTo.mono {s t : Scene} (h : ∀ p c, c ∈ s.children p → c ∈ t.children p) {r q : Ref}
    (hleads : s.LeadsTo r q) : t.LeadsTo r q :=
  Relation.ReflTransGen.mono h r q hleads

theorem children_take_subset (s : Scene) (r p c : Ref)
    (hc : c ∈ (s.withNodes (s.nodes.remove r).2).children p) : c ∈ s.children p := by
  by_cases hp : p = r
  · subst hp
    rw [children_of_dead (not_contains_remove s p)] at hc
    exact absurd hc List.not_mem_nil
  · rwa [(agreeOff_remove s r).children hp] at hc

/-! ## The walk -/

/-- The live nodes that the pending references lead to are gone, and nothing else is. -/
structure Uprooted (s : Scene) (pending gone : List Ref) (t : Scene) : Prop where
  nodup : gone.Nodup
  mem_gone : ∀ q, q ∈ gone ↔ s.contains q = true ∧ ∃ r ∈ pending, s.LeadsTo r q
  node? : ∀ q, t.node? q = if q ∈ gone then none else s.node? q
  size : t.size + gone.length = s.size

namespace Uprooted

variable {s t : Scene} {r : Ref} {rest gone : List Ref}

theorem nil (s : Scene) : Uprooted s [] [] s where
  nodup := List.nodup_nil
  mem_gone q := by simp
  node? q := (if_neg List.not_mem_nil).symm
  size := rfl

/-- A pending reference to nothing leads nowhere. -/
theorem skip (h : Uprooted s rest gone t) (hr : s.node? r = none) :
    Uprooted s (r :: rest) gone t where
  nodup := h.nodup
  mem_gone q := by
    have hdead := not_contains_of_none hr
    rw [h.mem_gone]
    refine and_congr_right fun hq => ?_
    constructor
    · rintro ⟨x, hx, hleads⟩
      exact ⟨x, List.mem_cons_of_mem r hx, hleads⟩
    · rintro ⟨x, hx, hleads⟩
      refine ⟨x, (List.mem_cons.mp hx).resolve_left ?_, hleads⟩
      rintro rfl
      exact hdead (hleads.eq_of_dead hdead ▸ hq)
  node? := h.node?
  size := h.size

/-- A pending node is taken, and its children are pending in its place. -/
theorem take (hs : s.nodes.WellFormed) (hr : s.contains r = true)
    (h : Uprooted (s.withNodes (s.nodes.remove r).2) ((s.children r).reverse ++ rest) gone t) :
    Uprooted s (r :: rest) (r :: gone) t := by
  have hoff := agreeOff_remove s r
  have hsub := children_take_subset s r
  have hgone := not_contains_remove s r
  have hsize : (s.withNodes (s.nodes.remove r).2).size + 1 = s.size := by
    obtain ⟨node, hnode⟩ := contains_iff.mp hr
    exact hs.live_remove hnode
  have hnode? := node?_remove s r
  generalize s.withNodes (s.nodes.remove r).2 = smaller at h hoff hsub hgone hsize hnode?
  constructor
  case nodup =>
    exact List.nodup_cons.mpr ⟨fun hmem => hgone ((h.mem_gone r).mp hmem).1, h.nodup⟩
  case mem_gone =>
    intro q
    by_cases hq : q = r
    · subst hq
      exact iff_of_true List.mem_cons_self ⟨hr, q, List.mem_cons_self, .refl⟩
    · rw [List.mem_cons, or_iff_right hq, h.mem_gone, hoff.contains hq]
      refine and_congr_right fun _ => ⟨?_, leadsTo_without hoff hq⟩
      rintro ⟨x, hx, hleads⟩
      have hback := hleads.mono hsub
      rcases List.mem_append.mp hx with hchild | hrest
      · exact ⟨r, List.mem_cons_self, .head (List.mem_reverse.mp hchild) hback⟩
      · exact ⟨x, List.mem_cons_of_mem r hrest, hback⟩
  case node? =>
    intro q
    rw [h.node?, hnode?]
    by_cases hq : q = r
    · simp [hq]
    · simp [hq]
  case size =>
    have hrest := h.size
    rw [List.length_cons]
    omega

end Uprooted

theorem uproot_uprooted {nodes : Arena Node} (roots : List (String × Ref)) (pending : List Ref)
    (removed : Nat) (h : nodes.WellFormed) :
    ∃ gone, (uproot nodes pending removed).1 = removed + gone.length ∧
      Uprooted ⟨nodes, roots⟩ pending gone ⟨(uproot nodes pending removed).2, roots⟩ := by
  fun_induction uproot nodes pending removed with
  | case1 nodes removed => exact ⟨[], rfl, .nil _⟩
  | case2 nodes removed r rest node smaller hremove _ ih =>
    have hnode : Scene.node? ⟨nodes, roots⟩ r = some node := by
      rw [Scene.node?, ← Arena.remove_fst, hremove]
    have hsmaller := h.remove r
    rw [hremove] at hsmaller
    obtain ⟨gone, hcount, hgone⟩ := ih hsmaller
    refine ⟨r :: gone, ?_, ?_⟩
    · rw [hcount, List.length_cons]
      omega
    · refine Uprooted.take h (contains_iff.mpr ⟨node, hnode⟩) ?_
      rw [children_of_node hnode, withNodes, hremove]
      exact hgone
  | case3 nodes removed r rest _ hremove ih =>
    have hnone : Scene.node? ⟨nodes, roots⟩ r = none := by
      rw [Scene.node?, ← Arena.remove_fst, hremove]
    obtain ⟨gone, hcount, hgone⟩ := ih h
    exact ⟨gone, hcount, hgone.skip hnone⟩

/-! ## The list that the node was on -/

section Detach

variable {s : Scene} {r : Ref}

/-- What `r` is dropped from: the children of the parent that `r` names, listed no more than once. -/
theorem node?_detach (hs : s.Sound) (q : Ref) :
    (s.detach r (s.parent? r)).node? q =
      if s.parent? r = some q then
        (s.node? q).map fun n => { n with children := n.children.filter (· != r) }
      else s.node? q := by
  cases hp : s.parent? r with
  | none => rfl
  | some p =>
    show (s.withNodes (s.nodes.modify p fun n => n.withoutChild r)).node? q = _
    rw [node?_modify]
    by_cases hq : q = p
    · subst hq
      rw [if_pos rfl, if_pos rfl]
      cases hnode : s.node? q with
      | none => rfl
      | some node =>
        have hnodup : node.children.Nodup := children_of_node hnode ▸ hs.children_nodup q
        rw [Option.map_some, Option.map_some, Node.withoutChild, hnodup.erase_eq_filter]
    · rw [if_neg hq, if_neg fun heq => hq (Option.some.inj heq).symm]

theorem contains_detach (q : Ref) :
    (s.detach r (s.parent? r)).contains q = s.contains q := by
  cases s.parent? r with
  | none => rfl
  | some p => exact contains_modify q

theorem size_detach : (s.detach r (s.parent? r)).size = s.size := by
  cases s.parent? r with
  | none => rfl
  | some p => exact Arena.live_modify s.nodes p _

theorem mem_children_detach (hs : s.Sound) {p c : Ref} :
    c ∈ (s.detach r (s.parent? r)).children p ↔
      c ∈ s.children p ∧ (s.parent? r = some p → c ≠ r) := by
  rw [children, node?_detach hs, children]
  by_cases hp : s.parent? r = some p
  · rw [if_pos hp]
    cases s.node? p <;> simp [hp]
  · rw [if_neg hp]
    simp [hp]

/-- The dropped entry is of no account to where `r` leads: it only leads back to `r`. -/
theorem leadsTo_detach (hs : s.Sound) {q : Ref} :
    (s.detach r (s.parent? r)).LeadsTo r q ↔ s.LeadsTo r q := by
  constructor
  · exact LeadsTo.mono fun p c hc => ((mem_children_detach hs).mp hc).1
  · intro h
    induction h with
    | refl => exact .refl
    | @tail p q _ hchild ih =>
      by_cases hq : q = r
      · rw [hq]
        exact .refl
      · exact ih.tail ((mem_children_detach hs).mpr ⟨hchild, fun _ => hq⟩)

end Detach

/-! ## A removal -/

/-- A removal is the walk from the one node, once that is off its list. -/
theorem uprooted_remove {s : Scene} (hs : s.Sound) {r : Ref} (hr : s.contains r = true) :
    ∃ gone, (s.remove r).1 = gone.length ∧
      Uprooted (s.detach r (s.parent? r)) [r] gone (s.remove r).2 ∧
      (s.remove r).2.roots = (s.detach r (s.parent? r)).roots := by
  obtain ⟨node, hnode⟩ := contains_iff.mp hr
  obtain ⟨gone, hcount, hgone⟩ :=
    uproot_uprooted (s.detach r (s.parent? r)).roots [r] 0 (hs.detach r).arena
  rw [parent_of_node hnode] at hcount hgone ⊢
  rw [Scene.remove, hnode]
  exact ⟨gone, hcount.trans (Nat.zero_add _), hgone, rfl⟩

/-- **A removal takes the live nodes that the links lead to from the given one, each once, and answers
with how many these are. Every other node is as it was, but that the parent of the removed one, or the
list of roots where it has none, does not list it any more.** Nothing is asked of the links. -/
theorem remove_reachable {s : Scene} (hs : s.Sound) (r : Ref) :
    ∃ gone : List Ref, gone.Nodup ∧ (∀ q, q ∈ gone ↔ s.contains q = true ∧ s.LeadsTo r q) ∧
      (s.remove r).1 = gone.length ∧ (s.remove r).2.size + gone.length = s.size ∧
      (∀ q, (s.remove r).2.node? q =
        if q ∈ gone then none
        else if s.parent? r = some q then
          (s.node? q).map fun n => { n with children := n.children.filter (· != r) }
        else s.node? q) ∧
      (s.remove r).2.roots =
        if s.contains r = true ∧ s.parent? r = none then s.roots.filter (·.2 != r)
        else s.roots := by
  cases hnode : s.node? r with
  | none =>
    have hgone : Uprooted s [r] [] s := (Uprooted.nil s).skip hnode
    have hremove : s.remove r = (0, s) := by rw [Scene.remove, hnode]
    have hnone : s.parent? r = none := by
      rw [parent?, hnode]
      rfl
    rw [hremove]
    refine ⟨[], hgone.nodup, fun q => ?_, rfl, hgone.size, fun q => ?_, ?_⟩
    · simpa using hgone.mem_gone q
    · rw [hnone]
      simp
    · rw [if_neg fun h => not_contains_of_none hnode h.1]
  | some node =>
    have hlive : s.contains r = true := contains_iff.mpr ⟨node, hnode⟩
    obtain ⟨gone, hcount, hgone, hroots⟩ := uprooted_remove hs hlive
    refine ⟨gone, hgone.nodup, fun q => ?_, hcount, hgone.size.trans size_detach, fun q => ?_, ?_⟩
    · rw [hgone.mem_gone, contains_detach]
      simp [leadsTo_detach hs]
    · rw [hgone.node?, node?_detach hs]
    · rw [hroots]
      cases hp : s.parent? r with
      | none =>
        rw [if_pos ⟨hlive, rfl⟩]
        rfl
      | some p =>
        rw [if_neg fun h => by simp at h]
        rfl

/-- Two siblings list each other, and one of them a reference to nothing. Both go, and the parent still
lists the second. -/
theorem remove_reachable_cycle :
    let edits : List Edit :=
      [.mountRoot "main" {}, .appendChild ⟨0⟩ {}, .appendChild ⟨0⟩ {}, .link ⟨1⟩ ⟨2⟩,
        .link ⟨2⟩ ⟨9⟩, .link ⟨2⟩ ⟨1⟩]
    let s := Scene.editAll {} edits
    s.Sound ∧ s.children ⟨1⟩ = [⟨2⟩] ∧ s.children ⟨2⟩ = [⟨9⟩, ⟨1⟩] ∧
      (s.remove ⟨1⟩).2.children ⟨0⟩ = [⟨2⟩] ∧
      ∃ gone : List Ref, gone.length = 2 ∧ (s.remove ⟨1⟩).2.size + gone.length = 3 ∧
        (∀ q, q ∈ gone ↔ s.contains q = true ∧ s.LeadsTo ⟨1⟩ q) ∧
        ∀ q ∈ gone, (s.remove ⟨1⟩).2.node? q = none := by
  intro edits s
  have hs : s.Sound := (Sound.of_linked Linked.empty).editAll edits
  have htwo : (s.remove ⟨1⟩).1 = 2 := by decide +kernel
  have hthree : s.size = 3 := by decide +kernel
  refine ⟨hs, by decide +kernel, by decide +kernel, by decide +kernel, ?_⟩
  clear_value s
  obtain ⟨gone, -, hgone, hcount, hsize, hnode, -⟩ := remove_reachable hs ⟨1⟩
  refine ⟨gone, hcount.symm.trans htwo, hsize.trans hthree, hgone, fun q hq => ?_⟩
  rw [hnode, if_pos hq]

end SceneSelect.Scene
