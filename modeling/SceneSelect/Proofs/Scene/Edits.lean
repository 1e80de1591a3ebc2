import SceneSelect.Proofs.Outcome
import SceneSelect.Proofs.Scene.Forest

/-!
# `Proofs/Scene/Edits.lean` — edits keep a scene a forest

Every edit but `link` and `unlink` is put together from the steps of `Linked`, so it leads from a
linked scene to a linked scene, also where it stops half-way; and **a scene stays a forest through any
number of edits** (`isForest_editAll`).

Placing a snapshot is adding one child after another, so it keeps what a new child keeps
(`appendSnapshot_keeps`). The one loop is `uproot`, which takes pending nodes out of the arena until none is
left. What holds of a scene whatever is pending, a removal keeps if each of its steps does (`remove_keeps`);
for `Linked` the invariant of the loop has the worklist as what is pending.
-/

set_option autoImplicit false

namespace SceneSelect

/-- The edits that change the lists of children only together with the nodes. -/
def Edit.KeepsLinks : Edit → Prop
  | .link .. | .unlink .. => False
  | _ => True

namespace Scene

/-! ## What a removal and a placing keep -/

theorem remove_of_node {s : Scene} {r : Ref} {node : Node} (h : s.node? r = some node) :
    (s.remove r).2 =
      ⟨(Scene.uproot (s.detach r (s.parent? r)).nodes [r] 0).2,
        (s.detach r (s.parent? r)).roots⟩ := by
  rw [Scene.remove, h, parent_of_node h]

section Keeps

variable {P : Scene → Prop}

theorem uproot_keeps (htake : ∀ s, P s → ∀ r, P (s.withNodes (s.nodes.remove r).2))
    {nodes : Arena Node} {roots : List (String × Ref)} (pending : List Ref) (removed : Nat)
    (h : P ⟨nodes, roots⟩) : P ⟨(uproot nodes pending removed).2, roots⟩ := by
  fun_induction uproot nodes pending removed with
  | case1 nodes removed => exact h
  | case2 nodes removed r rest node smaller hremove _ ih =>
    have hsmaller := htake _ h r
    rw [withNodes, hremove] at hsmaller
    exact ih hsmaller
  | case3 nodes removed r rest _ hremove ih => exact ih h

/-- What taking a node off its list keeps, and taking one out of the arena, a removal keeps. -/
theorem remove_keeps (hdetach : ∀ s, P s → ∀ r, P (s.detach r (s.parent? r)))
    (htake : ∀ s, P s → ∀ r, P (s.withNodes (s.nodes.remove r).2)) {s : Scene} (h : P s) (r : Ref) :
    P (s.remove r).2 := by
  cases hnode : s.node? r with
  | none =>
    rw [Scene.remove, hnode]
    exact h
  | some node =>
    rw [remove_of_node hnode]
    exact uproot_keeps htake [r] 0 (hdetach s h r)

mutual

/-- What a new child keeps, a snapshot keeps, however much of it is placed. -/
theorem appendSnapshot_keeps
    (hchild : ∀ s, P s → ∀ parent label, P (s.appendChild parent label).2) {s : Scene} (h : P s)
    (parent : Ref) : ∀ snapshot : Snapshot, P (s.appendSnapshot parent snapshot).2
  | .node label children => by
    rw [Scene.appendSnapshot]
    split
    · exact h
    · rename_i placed _
      have hplaced := hchild s h parent placed
      split
      · rename_i cause t happend
        rw [happend] at hplaced
        exact hplaced
      · rename_i r t happend
        rw [happend] at hplaced
        exact appendSnapshots_keeps hchild hplaced r children

theorem appendSnapshots_keeps
    (hchild : ∀ s, P s → ∀ parent label, P (s.appendChild parent label).2) {s : Scene} (h : P s)
    (parent : Ref) : ∀ snapshots : List Snapshot, P (s.appendSnapshots parent snapshots).2
  | [] => by
    rw [Scene.appendSnapshots]
    exact h
  | first :: rest => by
    rw [Scene.appendSnapshots]
    have hfirst := appendSnapshot_keeps hchild h parent first
    split
    · rename_i cause t happend
      rw [happend] at hfirst
      exact hfirst
    · rename_i r t happend
      rw [happend] at hfirst
      exact appendSnapshots_keeps hchild hfirst parent rest

end

end Keeps

namespace Linked

variable {s : Scene}

/-! ## Removing -/

theorem uproot {nodes : Arena Node} {roots : List (String × Ref)} {pending : List Ref}
    (removed : Nat) (h : Linked ⟨nodes, roots⟩ pending) :
    Linked ⟨(Scene.uproot nodes pending removed).2, roots⟩ [] := by
  fun_induction Scene.uproot nodes pending removed with
  | case1 nodes removed => exact h
  | case2 nodes removed r rest node smaller hremove _ ih =>
    have htake := h.take
    have hnode : Scene.node? ⟨nodes, roots⟩ r = some node := by
      rw [node?, ← Arena.remove_fst, hremove]
    rw [children_of_node hnode, withNodes, hremove] at htake
    exact ih htake
  | case3 nodes removed r rest _ hremove ih =>
    -- a pending node is live, so it is there to be taken out
    have hlive := h.pending_live (List.mem_cons_self (a := r))
    have hdead : Scene.node? ⟨nodes, roots⟩ r = none := by
      rw [node?, ← Arena.remove_fst, hremove]
    obtain ⟨node, hnode⟩ := contains_iff.mp hlive
    exact absurd (hnode.symm.trans hdead) (by simp)

theorem remove (h : Linked s []) (r : Ref) : Linked (s.remove r).2 [] := by
  cases hnode : s.node? r with
  | none =>
    rw [Scene.remove, hnode]
    exact h
  | some node =>
    rw [remove_of_node hnode]
    exact (h.detach (contains_iff.mpr ⟨node, hnode⟩)).uproot 0

/-! ## Placing -/

theorem key_free {key : String} {old : Ref} (h : Linked s []) (hold : s.root? key = some old) :
    key ∉ (s.remove old).2.roots.map Prod.fst := by
  have hmem : (key, old) ∈ s.roots := Json.mem_of_lookup_eq_some hold
  have hroot : old ∈ s.rootRefs := List.mem_map.mpr ⟨(key, old), hmem, rfl⟩
  obtain ⟨hlive, hnone⟩ := h.root_live hroot
  obtain ⟨node, hnode⟩ := contains_iff.mp hlive
  rw [remove_of_node hnode, hnone]
  intro hkey
  obtain ⟨root, hfilter, rfl⟩ := List.mem_map.mp hkey
  obtain ⟨hin, hne⟩ := List.mem_filter.mp hfilter
  have hsame := List.inj_on_of_nodup_map h.keys_nodup hin hmem rfl
  rw [hsame] at hne
  exact absurd hne (by simp)

theorem mountRoot (h : Linked s []) (key : String) (label : Label) :
    Linked (s.mountRoot key label).2 [] := by
  -- the same placing follows both ways in, with or without a root to remove first
  have place : ∀ t : Scene, Linked t [] → key ∉ t.roots.map Prod.fst →
      Linked ⟨(t.nodes.insert { label with }).2,
        t.roots ++ [(key, (t.nodes.insert { label with }).1)]⟩ [] := by
    intro t ht hkey
    have hnode := node?_insert_self ht.arena { label with }
    exact (ht.insert { label with } rfl).mount (parent_of_node hnode) hkey
  rw [Scene.mountRoot]
  cases hold : s.root? key with
  | none =>
    refine place s h fun hkey => ?_
    obtain ⟨root, hmem, rfl⟩ := List.mem_map.mp hkey
    exact absurd (List.lookup_eq_none_iff.mp hold root hmem) (by simp)
  | some old => exact place _ (h.remove old) (h.key_free hold)

theorem appendChild (h : Linked s []) (parent : Ref) (label : Label) :
    Linked (s.appendChild parent label).2 [] := by
  rw [Scene.appendChild]
  split
  · rename_i hlive
    let node : Node := { label with parent := some parent }
    have hp : ∀ p, node.parent = some p → s.contains p = true := by
      intro p hp
      obtain rfl := Option.some.inj hp
      exact hlive
    -- the parent was live, so it is not the slot that was filled, and is live still
    have hkept : (s.withNodes (s.nodes.insert node).2).contains parent = true := by
      have hne : parent ≠ (s.nodes.insert node).1 := fun heq => h.dead_insert node (heq ▸ hlive)
      rw [(agreeOff_insert h.arena node).contains hne]
      exact hlive
    have hown := parent_of_node (node?_insert_self h.arena node)
    exact (h.insert node rfl).attach hown hkept (h.insert_leaf hp)
  · exact h

theorem appendSnapshot (h : Linked s []) (parent : Ref) (snapshot : Snapshot) :
    Linked (s.appendSnapshot parent snapshot).2 [] :=
  appendSnapshot_keeps (P := fun s => Linked s []) (fun _ h => h.appendChild) h parent snapshot

theorem appendSnapshots (h : Linked s []) (parent : Ref) (snapshots : List Snapshot) :
    Linked (s.appendSnapshots parent snapshots).2 [] :=
  appendSnapshots_keeps (P := fun s => Linked s []) (fun _ h => h.appendChild) h parent snapshots

/-! ## Whole scenes -/

theorem mountSnapshot {t : Scene} {key : String} {snapshot : Snapshot} (h : Linked s [])
    (hmount : s.mountSnapshot key snapshot = .ok t) : Linked t [] := by
  obtain ⟨placed, -, hrest⟩ := bind_eq_ok_iff.mp hmount
  obtain ⟨done, -, hpure⟩ := bind_eq_ok_iff.mp hrest
  obtain rfl := pure_eq_ok_iff.mp hpure
  exact (h.mountRoot key placed).appendSnapshots _ snapshot.children

theorem ofSnapshots {t : Scene} {roots : List (String × Snapshot)}
    (hbuild : Scene.ofSnapshots roots = .ok t) : Linked t [] := by
  have fold : ∀ (roots : List (String × Snapshot)) (s : Scene), Linked s [] →
      roots.foldlM (fun s root => s.mountSnapshot root.1 root.2) s = .ok t → Linked t [] := by
    intro roots
    induction roots with
    | nil =>
      intro s hs hfold
      obtain rfl := pure_eq_ok_iff.mp hfold
      exact hs
    | cons root rest ih =>
      intro s hs hfold
      rw [List.foldlM_cons] at hfold
      obtain ⟨next, hmount, hrest⟩ := bind_eq_ok_iff.mp hfold
      exact ih next (hs.mountSnapshot hmount) hrest
  exact fold roots {} Linked.empty hbuild

end Linked

/-- Snapshots that are refused make no scene, and the empty one is a forest too. -/
theorem isForest_ofSnapshots (roots : List (String × Snapshot)) :
    ((Scene.ofSnapshots roots).toOption.getD {}).IsForest := by
  cases hbuild : Scene.ofSnapshots roots with
  | error cause => exact Linked.empty.isForest
  | ok s => exact (Linked.ofSnapshots hbuild).isForest

/-! ## Edits -/

theorem editAll_append (s : Scene) (edits rest : List Edit) :
    s.editAll (edits ++ rest) = (s.editAll edits).editAll rest :=
  List.foldl_append

theorem Linked.edit {s : Scene} (h : Linked s []) {e : Edit} (he : e.KeepsLinks) :
    Linked (s.edit e).2 [] := by
  cases e with
  | mountRoot key label => exact h.mountRoot key label
  | appendChild parent label => exact h.appendChild parent label
  | appendSnapshot parent snapshot => exact h.appendSnapshot parent snapshot
  | remove r => exact h.remove r
  | link parent child => exact he.elim
  | unlink parent child => exact he.elim
  | relabel r change => exact h.modify_label r (fun _ => rfl) fun _ => rfl

theorem Linked.editAll {s : Scene} (h : Linked s []) {edits : List Edit}
    (hedits : ∀ e ∈ edits, e.KeepsLinks) : Linked (s.editAll edits) [] := by
  induction edits generalizing s with
  | nil => exact h
  | cons e rest ih =>
    obtain ⟨he, hrest⟩ := List.forall_mem_cons.mp hedits
    exact ih (h.edit he) hrest

/-- **Any number of edits, in any order, of a scene that was empty or built from snapshots leaves a
forest.** -/
theorem isForest_editAll {start : Scene} {edits : List Edit}
    (hstart : start = {} ∨ ∃ roots, Scene.ofSnapshots roots = .ok start)
    (hedits : ∀ e ∈ edits, e.KeepsLinks) : (start.editAll edits).IsForest := by
  have hlinked : Linked start [] := by
    rcases hstart with rfl | ⟨roots, hbuild⟩
    · exact Linked.empty
    · exact Linked.ofSnapshots hbuild
  exact (hlinked.editAll hedits).isForest

/-- A subtree is removed, its slots are used again, a snapshot is refused half-way, and a root takes
the place of another. -/
theorem isForest_editAll_reuse :
    let roots := [("main", Snapshot.node {} [.node { text := some "a" } [], .node {} []])]
    let edits : List Edit :=
      [.remove ⟨1⟩, .appendChild ⟨2⟩ {},
        .appendSnapshot ⟨1⟩ (.node {} [.node {} [], .node { text := some "b" } [.node {} []]]),
        .mountRoot "side" {}, .remove ⟨7⟩, .mountRoot "main" {}, .appendChild ⟨2⟩ {}]
    let start := (Scene.ofSnapshots roots).toOption.getD {}
    Scene.ofSnapshots roots = .ok start ∧ (∀ e ∈ edits, e.KeepsLinks) ∧
      (start.editAll edits).rootRefs = [⟨5⟩, ⟨4⟩] ∧ (start.editAll edits).IsForest := by
  intro roots edits start
  have hbuild : Scene.ofSnapshots roots = .ok start := rfl
  have hedits : ∀ e ∈ edits, e.KeepsLinks := by
    simp [edits, Edit.KeepsLinks]
  exact ⟨hbuild, hedits, by decide +kernel, isForest_editAll (Or.inr ⟨roots, hbuild⟩) hedits⟩

end Scene

end SceneSelect
