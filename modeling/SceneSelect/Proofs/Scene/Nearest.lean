import SceneSelect.Proofs.Scene.Levels

/-!
# `Proofs/Scene/Nearest.lean` — the nearest element below

The search for an element below a node works off a queue. It finds the nearest because of the order in
which the queue stands: no entry is less deep than one before it, and none is deeper than the first by
more than a level, so the children of the first entry belong at the end. `Leveled` is this order, with
the promise that every entry has the levels left that are below it; taking the first entry out and
putting its children in keeps it (`Leveled.advance`).

It follows that **the node found has an element, is at or below the node asked about, and no other
element there is less deep** (`elementBelow?_eq_some`), and that nothing is found only where there is no
element (`elementBelow?_eq_none`).
-/

set_option autoImplicit false

namespace SceneSelect.Scene

variable {s : Scene} {r e : Ref}

theorem IsForest.depth_le_of_climbsTo (hs : s.IsForest) {p : Ref} (h : s.ClimbsTo r p) :
    s.depth p ≤ s.depth r := by
  induction h using Relation.ReflTransGen.head_induction_on with
  | refl => exact Nat.le_refl _
  | head hp _ ih =>
    rw [hs.depth_of_parent hp]
    exact Nat.le_succ_of_le ih

/-- What is at or below a node is the node or at or below a child. -/
theorem IsForest.climbsTo_iff (hs : s.IsForest) {p : Ref} :
    s.ClimbsTo r p ↔ r = p ∨ ∃ c ∈ s.children p, s.ClimbsTo r c := by
  constructor
  · intro h
    rcases Relation.ReflTransGen.cases_tail h with heq | ⟨c, hc, hp⟩
    · exact Or.inl heq.symm
    · exact Or.inr ⟨c, hs.mem_children hp, hc⟩
  · rintro (rfl | ⟨c, hc, h⟩)
    · exact .refl
    · exact h.trans (hs.climbsTo_of_child hc)

/-! ## The queue -/

/-- The entries of a queue are live, have all levels left that are below them, and stand level by
level. -/
structure Leveled (s : Scene) (queue : List (Nat × Ref)) : Prop where
  live : ∀ entry ∈ queue, s.contains entry.2 = true
  enough : ∀ entry ∈ queue, s.levels ≤ entry.1 + s.depth entry.2
  in_levels : queue.Pairwise fun a b =>
    s.depth a.2 ≤ s.depth b.2 ∧ s.depth b.2 ≤ s.depth a.2 + 1

namespace Leveled

variable {n : Nat} {rest : List (Nat × Ref)}

theorem start (hr : s.contains r = true) : s.Leveled [(s.levels, r)] where
  live entry hentry := by rwa [List.mem_singleton.mp hentry]
  enough entry hentry := by
    rw [List.mem_singleton.mp hentry]
    exact Nat.le_add_right _ _
  in_levels := List.pairwise_singleton _ _

/-- No entry has run out of levels. -/
theorem ne_zero (hs : s.IsForest) (h : s.Leveled ((n, r) :: rest)) : n ≠ 0 := by
  have hdeep := hs.depth_lt_levels (h.live (n, r) List.mem_cons_self)
  have hleft := h.enough (n, r) List.mem_cons_self
  dsimp only at hdeep hleft
  omega

/-- The children of the first entry take their place at the end. -/
theorem advance (hs : s.IsForest) (h : s.Leveled ((n + 1, r) :: rest)) :
    s.Leveled (rest ++ (s.children r).map fun c => (n, c)) := by
  obtain ⟨hfirst, hrest⟩ := List.pairwise_cons.mp h.in_levels
  have hleft : s.levels ≤ n + 1 + s.depth r := h.enough (n + 1, r) List.mem_cons_self
  constructor
  case live =>
    intro entry hentry
    rcases List.mem_append.mp hentry with hentry | hentry
    · exact h.live entry (List.mem_cons_of_mem _ hentry)
    · obtain ⟨c, hc, rfl⟩ := List.mem_map.mp hentry
      exact hs.contains_child hc
  case enough =>
    intro entry hentry
    rcases List.mem_append.mp hentry with hentry | hentry
    · exact h.enough entry (List.mem_cons_of_mem _ hentry)
    · obtain ⟨c, hc, rfl⟩ := List.mem_map.mp hentry
      show s.levels ≤ n + s.depth c
      rw [hs.depth_of_child hc]
      omega
  case in_levels =>
    refine List.pairwise_append.mpr ⟨hrest, ?_, ?_⟩
    · refine List.pairwise_map.mpr (List.pairwise_of_forall_mem_list fun c hc d hd => ?_)
      show s.depth c ≤ s.depth d ∧ s.depth d ≤ s.depth c + 1
      rw [hs.depth_of_child hc, hs.depth_of_child hd]
      omega
    · intro entry hentry child hchild
      obtain ⟨c, hc, rfl⟩ := List.mem_map.mp hchild
      obtain ⟨habove, hbelow⟩ := hfirst entry hentry
      show s.depth entry.2 ≤ s.depth c ∧ s.depth c ≤ s.depth entry.2 + 1
      dsimp only at habove hbelow
      rw [hs.depth_of_child hc]
      omega

/-- Nothing in the queue is less deep than what is first in it. -/
theorem depth_first_le (hs : s.IsForest) (h : s.Leveled ((n, r) :: rest)) {entry : Nat × Ref}
    (hentry : entry ∈ (n, r) :: rest) (he : s.ClimbsTo e entry.2) : s.depth r ≤ s.depth e := by
  have hbelow := hs.depth_le_of_climbsTo he
  rcases List.mem_cons.mp hentry with rfl | hrest
  · exact hbelow
  · exact Nat.le_trans ((List.pairwise_cons.mp h.in_levels).1 entry hrest).1 hbelow

end Leveled

/-! ## What is found -/

theorem firstElement?_element (n : Nat) (rest : List (Nat × Ref)) (hr : s.hasElement r = true) :
    s.firstElement? ((n + 1, r) :: rest) = some r := by
  rw [firstElement?, if_pos hr]

theorem firstElement?_virtual (n : Nat) (rest : List (Nat × Ref)) (hr : ¬s.hasElement r = true) :
    s.firstElement? ((n + 1, r) :: rest) =
      s.firstElement? (rest ++ (s.children r).map fun c => (n, c)) := by
  rw [firstElement?, if_neg hr]

/-- What is below the queue is the same after an entry without an element is replaced by its
children, as far as elements go. -/
theorem IsForest.exists_below_advance (hs : s.IsForest) {n : Nat} {rest : List (Nat × Ref)}
    (hr : ¬s.hasElement r = true) (he : s.hasElement e = true) :
    (∃ entry ∈ (n + 1, r) :: rest, s.ClimbsTo e entry.2) ↔
      ∃ entry ∈ rest ++ (s.children r).map fun c => (n, c), s.ClimbsTo e entry.2 := by
  have hne : e ≠ r := fun heq => hr (heq ▸ he)
  simp only [List.mem_cons, List.mem_append, List.mem_map, or_and_right, exists_or, exists_eq_left]
  rw [hs.climbsTo_iff, or_iff_right hne, or_comm]
  simp

theorem firstElement?_eq_some (hs : s.IsForest) {queue : List (Nat × Ref)} (h : s.Leveled queue)
    (hfound : s.firstElement? queue = some e) :
    s.hasElement e = true ∧ (∃ entry ∈ queue, s.ClimbsTo e entry.2) ∧
      ∀ other, s.hasElement other = true → (∃ entry ∈ queue, s.ClimbsTo other entry.2) →
        s.depth e ≤ s.depth other := by
  induction queue using firstElement?.induct s with
  | case1 => exact absurd hfound (by simp [firstElement?])
  | case2 r rest => exact absurd rfl (h.ne_zero hs)
  | case3 n r rest helement =>
    rw [firstElement?_element n rest helement] at hfound
    obtain rfl := Option.some.inj hfound
    refine ⟨helement, ⟨_, List.mem_cons_self, .refl⟩, ?_⟩
    rintro other - ⟨entry, hentry, hother⟩
    exact h.depth_first_le hs hentry hother
  | case4 n r rest hvirtual ih =>
    rw [firstElement?_virtual n rest hvirtual] at hfound
    obtain ⟨helement, hbelow, hnearest⟩ := ih (h.advance hs) hfound
    refine ⟨helement, (hs.exists_below_advance hvirtual helement).mpr hbelow, ?_⟩
    intro other hother hthere
    exact hnearest other hother ((hs.exists_below_advance hvirtual hother).mp hthere)

theorem firstElement?_eq_none (hs : s.IsForest) {queue : List (Nat × Ref)} (h : s.Leveled queue)
    (hfound : s.firstElement? queue = none) (he : s.hasElement e = true) :
    ¬∃ entry ∈ queue, s.ClimbsTo e entry.2 := by
  induction queue using firstElement?.induct s with
  | case1 => simp
  | case2 r rest => exact absurd rfl (h.ne_zero hs)
  | case3 n r rest helement =>
    rw [firstElement?_element n rest helement] at hfound
    exact absurd hfound (by simp)
  | case4 n r rest hvirtual ih =>
    rw [firstElement?_virtual n rest hvirtual] at hfound
    rw [hs.exists_below_advance hvirtual he]
    exact ih (h.advance hs) hfound

/-! ## The nearest element below a node -/

theorem elementBelow?_of_hasElement (hr : s.hasElement r = true) : s.elementBelow? r = some r := by
  have hpos : 0 < s.levels := Nat.zero_lt_of_lt (slot_lt_levels (contains_of_hasElement hr))
  obtain ⟨n, hn⟩ := Nat.exists_eq_succ_of_ne_zero (Nat.ne_zero_of_lt hpos)
  rw [elementBelow?, hn, firstElement?_element n [] hr]

/-- An element at or below the node, and no other there is less deep. -/
def IsNearest (s : Scene) (r e : Ref) : Prop :=
  s.hasElement e = true ∧ s.ClimbsTo e r ∧
    ∀ other, s.hasElement other = true → s.ClimbsTo other r → s.depth e ≤ s.depth other

theorem elementBelow?_eq_some (hs : s.IsForest) (hr : s.contains r = true)
    (h : s.elementBelow? r = some e) : s.IsNearest r e := by
  simpa [IsNearest] using firstElement?_eq_some hs (Leveled.start hr) h

theorem elementBelow?_eq_none (hs : s.IsForest) (hr : s.contains r = true)
    (h : s.elementBelow? r = none) (he : s.hasElement e = true) : ¬s.ClimbsTo e r := by
  simpa using firstElement?_eq_none hs (Leveled.start hr) h he

end SceneSelect.Scene
