import SceneSelect.Proofs.Scene.Order
import SceneSelect.Scene.Walk

/-!
# `Proofs/Scene/Levels.lean` — the levels of a scene are enough

Every walk is bounded by the number of slots. In a forest the bound is never reached: the way up from
a node visits no node twice, so a node has fewer ancestors than there are slots
(`IsForest.depth_lt_levels`), and a walk that has still as many levels to enter as there are slots below
its depth does not run out of them.

So the bound can be forgotten. **Upwards, the ancestors of a node are its parent and those of the
parent** (`IsForest.ancestors_of_parent`), and what holds of a node as soon as it holds of its parent holds
of every node (`IsForest.induction_above`). **Downwards, what holds of a node as soon as it holds of its
children holds of every node** (`IsForest.induction_below`).
-/

set_option autoImplicit false

namespace SceneSelect.Scene

variable {s : Scene} {r p e : Ref}

/-! ## Climbing -/

theorem climb_succ_of_parent (n : Nat) (hp : s.parent? r = some p) :
    s.climb (n + 1) r = p :: s.climb n p := by
  rw [climb, hp]

theorem climb_of_root (n : Nat) (hp : s.parent? r = none) : s.climb n r = [] := by
  cases n with
  | zero => rfl
  | succ n => rw [climb, hp]

theorem climb_prefix_succ (n : Nat) (r : Ref) : s.climb n r <+: s.climb (n + 1) r := by
  induction n generalizing r with
  | zero => exact List.nil_prefix
  | succ n ih =>
    cases hp : s.parent? r with
    | none => rw [climb_of_root _ hp]; exact List.nil_prefix
    | some p =>
      rw [climb_succ_of_parent _ hp, climb_succ_of_parent _ hp]
      exact (List.prefix_cons_inj p).mpr (ih p)

/-- A way up that is shorter than its bound has ended at a root. -/
theorem climb_succ_of_length_lt {n : Nat} (h : (s.climb n r).length < n) :
    s.climb (n + 1) r = s.climb n r := by
  induction n generalizing r with
  | zero => exact absurd h (Nat.not_lt_zero _)
  | succ n ih =>
    cases hp : s.parent? r with
    | none => rw [climb_of_root _ hp, climb_of_root _ hp]
    | some p =>
      rw [climb_succ_of_parent _ hp] at h
      rw [climb_succ_of_parent _ hp, climb_succ_of_parent _ hp, ih (Nat.lt_of_succ_lt_succ h)]

theorem climbsTo_of_mem_climb {n : Nat} (h : p ∈ s.climb n r) : s.ClimbsTo r p := by
  induction n generalizing r with
  | zero => exact absurd h List.not_mem_nil
  | succ n ih =>
    cases hq : s.parent? r with
    | none =>
      rw [climb_of_root _ hq] at h
      exact absurd h List.not_mem_nil
    | some q =>
      rw [climb_succ_of_parent _ hq] at h
      rcases List.mem_cons.mp h with rfl | h
      · exact .single hq
      · exact .head hq (ih h)

theorem ancestors_of_root (hp : s.parent? r = none) : s.ancestors r = [] :=
  climb_of_root _ hp

/-! ## The nearest element above -/

theorem elementAbove?_of_root (hp : s.parent? r = none) (h : s.elementAbove? r = some e) :
    e = r := by
  rw [elementAbove?, selfAndAncestors, ancestors, climb_of_root _ hp] at h
  exact List.mem_singleton.mp (List.mem_of_find?_eq_some h)

/-- A node without an element has the nearest element of its parent. -/
theorem elementAbove?_parent (hr : s.hasElement r = false) (hp : s.parent? r = some p)
    (h : s.elementAbove? r = some e) : s.elementAbove? p = some e := by
  rw [elementAbove?, selfAndAncestors, List.find?_cons_of_neg (by simp [hr]), ancestors] at h
  cases hlevels : s.levels with
  | zero =>
    rw [hlevels] at h
    exact absurd h (by simp [climb])
  | succ n =>
    rw [hlevels, climb_succ_of_parent _ hp] at h
    rw [elementAbove?, selfAndAncestors, ancestors, hlevels]
    exact (List.IsPrefix.find?_eq_some ((List.prefix_cons_inj p).mpr (climb_prefix_succ n p)) h)

theorem climbsTo_elementAbove (h : s.elementAbove? r = some e) : s.ClimbsTo r e := by
  rcases List.mem_cons.mp (List.mem_of_find?_eq_some h) with rfl | hmem
  · exact .refl
  · exact climbsTo_of_mem_climb hmem

theorem hasElement_elementAbove (h : s.elementAbove? r = some e) : s.hasElement e = true :=
  List.find?_some h

theorem contains_of_hasElement (h : s.hasElement r = true) : s.contains r = true := by
  obtain ⟨node, hnode, -⟩ := (Option.any_eq_true _ _).mp h
  exact contains_iff.mpr ⟨node, hnode⟩

theorem parent_of_place {place : Ref × Nat} (h : s.placeInParent? r = some place) :
    s.parent? r = some place.1 := by
  obtain ⟨p, hp, h⟩ := Option.bind_eq_some_iff.mp h
  obtain ⟨i, -, h⟩ := Option.bind_eq_some_iff.mp h
  obtain rfl := Option.some.inj h
  exact hp

/-! ## How long a way up can be -/

theorem slot_lt_levels (h : s.contains r = true) : r.slot < s.levels := by
  obtain ⟨node, hnode⟩ := contains_iff.mp h
  obtain ⟨slot, hslot, -⟩ := Option.bind_eq_some_iff.mp hnode
  exact (Array.getElem?_eq_some_iff.mp hslot).1

/-- There are no more nodes than slots. -/
theorem length_le_levels {rs : List Ref} (hnodup : rs.Nodup)
    (hlive : ∀ r ∈ rs, s.contains r = true) : rs.length ≤ s.levels := by
  have hinjective : Function.Injective Ref.slot := by
    intro a b h
    cases a
    cases b
    exact congrArg Ref.mk h
  have hslots : (rs.map Ref.slot).Nodup := (List.nodup_map_iff hinjective).mpr hnodup
  have hsubset : rs.map Ref.slot ⊆ List.range s.levels := by
    intro i hi
    obtain ⟨r, hr, rfl⟩ := List.mem_map.mp hi
    exact List.mem_range.mpr (slot_lt_levels (hlive r hr))
  have hlength := hslots.length_le_of_subset hsubset
  rwa [List.length_map, List.length_range] at hlength

namespace IsForest

theorem contains_parent (hs : s.IsForest) (hp : s.parent? r = some p) : s.contains p = true :=
  contains_of_child (hs.mem_children hp)

theorem contains_climbsTo (hs : s.IsForest) (hr : s.contains r = true) (h : s.ClimbsTo r p) :
    s.contains p = true := by
  induction h with
  | refl => exact hr
  | tail _ hp _ => exact hs.contains_parent hp

theorem contains_child (hs : s.IsForest) (hr : r ∈ s.children p) : s.contains r = true :=
  (hs.children_live p r hr).1

theorem nodup_climb (hs : s.IsForest) (n : Nat) (r : Ref) : (r :: s.climb n r).Nodup := by
  induction n generalizing r with
  | zero => exact List.nodup_singleton r
  | succ n ih =>
    cases hp : s.parent? r with
    | none =>
      rw [climb_of_root _ hp]
      exact List.nodup_singleton r
    | some p =>
      rw [climb_succ_of_parent _ hp]
      refine List.nodup_cons.mpr ⟨fun hmem => hs.acyclic hp ?_, ih p⟩
      rcases List.mem_cons.mp hmem with heq | hmem
      · exact heq ▸ .refl
      · exact climbsTo_of_mem_climb hmem

theorem length_climb_lt (hs : s.IsForest) (hr : s.contains r = true) (n : Nat) :
    (s.climb n r).length < s.levels := by
  refine length_le_levels (hs.nodup_climb n r) fun q hq => ?_
  rcases List.mem_cons.mp hq with rfl | hq
  · exact hr
  · exact hs.contains_climbsTo hr (climbsTo_of_mem_climb hq)

/-- A node has fewer ancestors than there are slots. -/
theorem depth_lt_levels (hs : s.IsForest) (hr : s.contains r = true) : s.depth r < s.levels :=
  hs.length_climb_lt hr _

theorem ancestors_of_parent (hs : s.IsForest) (hp : s.parent? r = some p) :
    s.ancestors r = p :: s.ancestors p := by
  have hr : s.contains r = true := contains_of_parent hp
  obtain ⟨n, hn⟩ : ∃ n, s.levels = n + 1 :=
    Nat.exists_eq_succ_of_ne_zero (Nat.ne_zero_of_lt (hs.depth_lt_levels hr))
  have hshort : (s.climb n p).length < n := by
    have hlt := hs.length_climb_lt hr (n + 1)
    rw [climb_succ_of_parent _ hp, hn] at hlt
    exact Nat.lt_of_succ_lt_succ hlt
  rw [ancestors, ancestors, hn, climb_succ_of_parent _ hp, climb_succ_of_length_lt hshort]

theorem depth_of_parent (hs : s.IsForest) (hp : s.parent? r = some p) :
    s.depth r = s.depth p + 1 := by
  rw [depth, hs.ancestors_of_parent hp]
  rfl

theorem depth_of_child (hs : s.IsForest) (hr : r ∈ s.children p) : s.depth r = s.depth p + 1 :=
  hs.depth_of_parent (hs.children_live p r hr).2

/-! ## Walking up and down -/

/-- What a node has if its parent has it is had by every node, and by references to nothing. -/
theorem induction_above (hs : s.IsForest) {P : Ref → Prop}
    (step : ∀ r, (∀ p, s.parent? r = some p → P p) → P r) (r : Ref) : P r := by
  by_cases hr : s.contains r = true
  · obtain ⟨root, hroot, hclimb⟩ := hs.grounded r hr
    induction hclimb using Relation.ReflTransGen.head_induction_on with
    | refl =>
      refine step root fun p hp => ?_
      exact absurd (((hs.mem_roots root).mp hroot).2.symm.trans hp) (by simp)
    | @head r q hq _ ih =>
      refine step r fun p hp => ?_
      obtain rfl := Option.some.inj (hq.symm.trans hp)
      exact ih (hs.contains_parent hq)
  · exact step r fun p hp => absurd (contains_of_parent hp) hr

/-- What a node has if all its children have it is had by every node. -/
theorem induction_below (hs : s.IsForest) {P : Ref → Prop}
    (step : ∀ r, s.contains r = true → (∀ c ∈ s.children r, P c) → P r)
    (hr : s.contains r = true) : P r := by
  -- the nodes below a node are at a greater depth, and no depth reaches the number of slots
  induction hn : s.levels - s.depth r using Nat.strongRecOn generalizing r with
  | ind n ih =>
    refine step r hr fun c hc => ih (s.levels - s.depth c) ?_ (hs.contains_child hc) rfl
    have hdeep := hs.depth_lt_levels hr
    have hdeeper := hs.depth_of_child hc
    omega

end IsForest

end SceneSelect.Scene
