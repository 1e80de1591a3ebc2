import SceneSelect.Proofs.Scene.Edits
import SceneSelect.Proofs.Scene.Nearest

/-!
# `Proofs/Scene/LevelOrder.lean` — level by level, and from left to right

The queue in which the nearest element is looked for holds, at any time, the rest of one level and
behind it the children of what was taken out of that level. So two entries of one level are in
pre-order, and an entry of the next level has its parent *before* every entry of the level above that
still waits. `LevelsBefore` says both, and it is the second half that makes the first one last: when an
entry is taken out, its children go behind those of its predecessors and belong there.

The walk is bounded by the levels of the scene. `Settles` is the same walk without a bound, as a loop
that ends or does not; **in a forest it ends, and with what the bounded walk finds**
(`Leveled.settles`). What that is says `elementBelow?_level_order`: **the element of the least depth at
or below the node, and of several the first in pre-order.**
-/

set_option autoImplicit false

namespace SceneSelect.Scene

variable {s : Scene} {r e : Ref}

/-! ## The loop -/

/-- Working off a queue of references comes to an end, with this result. A reference without a node
costs one look; a node without an element leaves its children at the end of the queue. -/
inductive Settles (s : Scene) : List Ref → Option Ref → Prop where
  | empty : Settles s [] none
  | dead {r : Ref} {rest : List Ref} {found : Option Ref} (hr : ¬s.contains r = true)
      (h : Settles s rest found) : Settles s (r :: rest) found
  | element {r : Ref} {rest : List Ref} (hr : s.hasElement r = true) :
      Settles s (r :: rest) (some r)
  | virtual {r : Ref} {rest : List Ref} {found : Option Ref} (hr : s.contains r = true)
      (hvirtual : ¬s.hasElement r = true) (h : Settles s (rest ++ s.children r) found) :
      Settles s (r :: rest) found

/-- The loop has one result. -/
theorem Settles.unique {queue : List Ref} {found other : Option Ref} (h : s.Settles queue found)
    (h' : s.Settles queue other) : found = other := by
  induction h with
  | empty =>
    cases h'
    rfl
  | dead hr _ ih =>
    cases h' with
    | dead _ h' => exact ih h'
    | element hr' => exact absurd (contains_of_hasElement hr') hr
    | virtual hr' => exact absurd hr' hr
  | element hr =>
    cases h' with
    | dead hr' => exact absurd (contains_of_hasElement hr) hr'
    | element => rfl
    | virtual _ hvirtual => exact absurd hr hvirtual
  | virtual hr hvirtual _ ih =>
    cases h' with
    | dead hr' => exact absurd hr hr'
    | element hr' => exact absurd hr' hvirtual
    | virtual _ _ h' => exact ih h'

theorem map_snd_advance (n : Nat) (rest : List (Nat × Ref)) (cs : List Ref) :
    (rest ++ cs.map fun c => (n, c)).map Prod.snd = rest.map Prod.snd ++ cs := by
  simp [Function.comp_def]

/-- In a forest no entry of the bounded walk runs out of levels, so the bound makes no difference. -/
theorem Leveled.settles (hs : s.IsForest) {queue : List (Nat × Ref)} (h : s.Leveled queue) :
    s.Settles (queue.map Prod.snd) (s.firstElement? queue) := by
  induction queue using firstElement?.induct s with
  | case1 =>
    rw [firstElement?]
    exact .empty
  | case2 r rest => exact absurd rfl (h.ne_zero hs)
  | case3 n r rest helement =>
    rw [firstElement?_element n rest helement]
    exact .element helement
  | case4 n r rest hvirtual ih =>
    rw [firstElement?_virtual n rest hvirtual]
    have hrest := ih (h.advance hs)
    rw [map_snd_advance] at hrest
    exact .virtual (h.live (n + 1, r) List.mem_cons_self) hvirtual hrest

/-! ## The order of the queue -/

/-- The first stands in front of the second in the order of levels: on the same level and to the left
of it, or one level above, to the right of its parent. -/
def LevelsBefore (s : Scene) (a b : Ref) : Prop :=
  (s.depth a = s.depth b ∧ s.Before a b) ∨
    (s.depth b = s.depth a + 1 ∧ ∃ p, s.parent? b = some p ∧ s.Before p a)

theorem LevelsBefore.before (h : s.LevelsBefore r e) (hdepth : s.depth r = s.depth e) :
    s.Before r e := by
  rcases h with ⟨-, hbefore⟩ | ⟨hdeeper, -⟩
  · exact hbefore
  · omega

/-- What waits behind an entry is in front of the children of that entry. -/
theorem LevelsBefore.child (hs : s.IsForest) {c : Ref} (h : s.LevelsBefore r e)
    (hc : c ∈ s.children r) : s.LevelsBefore e c := by
  have hdepth := hs.depth_of_child hc
  rcases h with ⟨hsame, hbefore⟩ | ⟨hdeeper, p, hp, hbefore⟩
  · exact Or.inr ⟨by omega, r, (hs.children_live r c hc).2, hbefore⟩
  · exact Or.inl ⟨by omega, hbefore.below (.single hp) (hs.climbsTo_of_child hc)⟩

theorem pairwise_levelsBefore_children (hs : s.IsForest) (r : Ref) :
    (s.children r).Pairwise s.LevelsBefore := by
  refine (s.pairwise_children r).imp_of_mem fun {c d} hc hd hbefore => Or.inl ⟨?_, hbefore⟩
  rw [hs.depth_of_child hc, hs.depth_of_child hd]

/-- Taking the first entry out and putting its children in keeps the order. -/
theorem pairwise_levelsBefore_advance (hs : s.IsForest) {rest : List Ref}
    (h : (r :: rest).Pairwise s.LevelsBefore) :
    (rest ++ s.children r).Pairwise s.LevelsBefore := by
  obtain ⟨hfirst, hrest⟩ := List.pairwise_cons.mp h
  refine List.pairwise_append.mpr ⟨hrest, pairwise_levelsBefore_children hs r, ?_⟩
  intro x hx c hc
  exact (hfirst x hx).child hs hc

/-! ## What is found -/

/-- The element is at or below the node, and any other there is deeper, or as deep and later in
pre-order. -/
structure IsFirstInLevels (s : Scene) (r e : Ref) : Prop where
  element : s.hasElement e = true
  below : s.ClimbsTo e r
  first : ∀ other, s.hasElement other = true → s.ClimbsTo other r → other ≠ e →
    s.depth e < s.depth other ∨ s.depth e = s.depth other ∧ s.Precedes e other

theorem IsFirstInLevels.unique (hs : s.IsForest) {e' : Ref} (h : s.IsFirstInLevels r e)
    (h' : s.IsFirstInLevels r e') : e = e' := by
  by_contra hne
  have hfirst := h.first e' h'.element h'.below (Ne.symm hne)
  have hfirst' := h'.first e h.element h.below hne
  rcases hfirst with hless | ⟨hsame, hbefore⟩
  · omega
  · rcases hfirst' with hless' | ⟨-, hbefore'⟩
    · omega
    · exact hs.precedes_irrefl e (hs.precedes_trans hbefore hbefore')

/-- Of the nodes below the queue that are as deep as its first entry, that entry comes first. -/
theorem before_of_same_depth (hs : s.IsForest) {n : Nat} {rest : List (Nat × Ref)} {other : Ref}
    (h : s.Leveled ((n, r) :: rest))
    (horder : (((n, r) :: rest).map Prod.snd).Pairwise s.LevelsBefore)
    (hbelow : ∃ entry ∈ (n, r) :: rest, s.ClimbsTo other entry.2) (hne : other ≠ r)
    (hdepth : s.depth r = s.depth other) : s.Before r other := by
  obtain ⟨entry, hentry, hclimb⟩ := hbelow
  have habove := h.depth_first_le hs hentry .refl
  -- the entry is no deeper than what is below it, so it is that node itself
  have hself : other = entry.2 := by
    rcases Relation.ReflTransGen.cases_head hclimb with heq | ⟨p, hp, hrest⟩
    · exact heq
    · have hparent := hs.depth_of_parent hp
      have hentryAbove := hs.depth_le_of_climbsTo hrest
      omega
  rcases List.mem_cons.mp hentry with rfl | hentry
  · exact absurd hself hne
  · have hbehind := (List.pairwise_cons.mp horder).1 entry.2 (List.mem_map_of_mem hentry)
    rw [hself] at hdepth ⊢
    exact hbehind.before hdepth

theorem precedes_of_firstElement? (hs : s.IsForest) {queue : List (Nat × Ref)} (h : s.Leveled queue)
    (horder : (queue.map Prod.snd).Pairwise s.LevelsBefore)
    (hfound : s.firstElement? queue = some e) {other : Ref} (hother : s.hasElement other = true)
    (hbelow : ∃ entry ∈ queue, s.ClimbsTo other entry.2) (hne : other ≠ e)
    (hdepth : s.depth e = s.depth other) : s.Precedes e other := by
  induction queue using firstElement?.induct s with
  | case1 => exact absurd hfound (by simp [firstElement?])
  | case2 r rest => exact absurd rfl (h.ne_zero hs)
  | case3 n r rest helement =>
    rw [firstElement?_element n rest helement] at hfound
    obtain rfl := Option.some.inj hfound
    exact Or.inr (before_of_same_depth hs h horder hbelow hne hdepth)
  | case4 n r rest hvirtual ih =>
    rw [firstElement?_virtual n rest hvirtual] at hfound
    refine ih (h.advance hs) ?_ hfound ((hs.exists_below_advance hvirtual hother).mp hbelow)
    rw [map_snd_advance]
    exact pairwise_levelsBefore_advance hs horder

theorem IsNearest.isFirstInLevels (hs : s.IsForest) (hr : s.contains r = true)
    (hfound : s.elementBelow? r = some e) (h : s.IsNearest r e) : s.IsFirstInLevels r e := by
  obtain ⟨helement, hbelow, hnearest⟩ := h
  refine ⟨helement, hbelow, fun other hother hthere hne => ?_⟩
  rcases Nat.lt_or_eq_of_le (hnearest other hother hthere) with hless | hsame
  · exact Or.inl hless
  · have horder : ([(s.levels, r)].map Prod.snd).Pairwise s.LevelsBefore :=
      List.pairwise_singleton _ _
    exact Or.inr ⟨hsame, precedes_of_firstElement? hs (Leveled.start hr) horder hfound hother
      ⟨_, List.mem_singleton_self _, hthere⟩ hne hsame⟩

/-! ## References to nothing -/

theorem elementBelow?_of_dead (hr : ¬s.contains r = true) : s.elementBelow? r = none := by
  rw [elementBelow?]
  cases s.levels with
  | zero =>
    rw [firstElement?]
    exact firstElement?.eq_1 s
  | succ n =>
    rw [firstElement?_virtual n [] fun h => hr (contains_of_hasElement h), children_of_dead hr]
    exact firstElement?.eq_1 s

theorem IsForest.not_climbsTo_of_dead (hs : s.IsForest) (hr : ¬s.contains r = true)
    (he : s.contains e = true) : ¬s.ClimbsTo e r :=
  fun h => hr (hs.contains_climbsTo he h)

/-! ## The nearest element -/

/-- **The walk ends, finds nothing only where there is no element at or below the node, and otherwise
finds the one that comes first level by level and, within a level, in pre-order.** -/
theorem elementBelow?_level_order (hs : s.IsForest) (r : Ref) :
    (∀ found, s.Settles [r] found ↔ found = s.elementBelow? r) ∧
      (s.elementBelow? r = none ↔ ∀ e, s.hasElement e = true → ¬s.ClimbsTo e r) ∧
      ∀ e, s.elementBelow? r = some e ↔ s.IsFirstInLevels r e := by
  by_cases hr : s.contains r = true
  · have hend : s.Settles [r] (s.elementBelow? r) := (Leveled.start hr).settles hs
    have hnone : s.elementBelow? r = none → ∀ e, s.hasElement e = true → ¬s.ClimbsTo e r :=
      fun hfound e he => elementBelow?_eq_none hs hr hfound he
    have hsome : ∀ e, s.elementBelow? r = some e → s.IsFirstInLevels r e :=
      fun e hfound => (elementBelow?_eq_some hs hr hfound).isFirstInLevels hs hr hfound
    refine ⟨fun found => ⟨fun h => h.unique hend, fun h => h ▸ hend⟩, ⟨hnone, fun hall => ?_⟩,
      fun e => ⟨hsome e, fun hfirst => ?_⟩⟩
    · cases hfound : s.elementBelow? r with
      | none => rfl
      | some e => exact absurd (hsome e hfound).below (hall e (hsome e hfound).element)
    · cases hfound : s.elementBelow? r with
      | none => exact absurd hfirst.below (hnone hfound e hfirst.element)
      | some e' => rw [(hsome e' hfound).unique hs hfirst]
  · have hnothing : ∀ e, s.hasElement e = true → ¬s.ClimbsTo e r :=
      fun e he => hs.not_climbsTo_of_dead hr (contains_of_hasElement he)
    have hend : s.Settles [r] none := .dead hr .empty
    rw [elementBelow?_of_dead hr]
    refine ⟨fun found => ⟨fun h => h.unique hend, fun h => h ▸ hend⟩, iff_of_true rfl hnothing, ?_⟩
    exact fun e => ⟨fun h => absurd h (by simp),
      fun hfirst => absurd hfirst.below (hnothing e hfirst.element)⟩

/-- The first element in pre-order is three levels down; of the two on the second level the left one
is found. -/
theorem elementBelow?_level_order_uneven :
    let button := Snapshot.node { element := some {} } []
    let roots := [("main", Snapshot.node {}
      [.node {} [.node {} [button]], .node {} [button, button]])]
    let s := (Scene.ofSnapshots roots).toOption.getD {}
    s.IsForest ∧ s.Settles [⟨0⟩] (some ⟨5⟩) ∧ s.IsFirstInLevels ⟨0⟩ ⟨5⟩ := by
  intro button roots s
  have hs : s.IsForest := isForest_ofSnapshots roots
  have hfound : s.elementBelow? ⟨0⟩ = some ⟨5⟩ := by decide +kernel
  obtain ⟨hend, -, hfirst⟩ := elementBelow?_level_order hs ⟨0⟩
  exact ⟨hs, (hend _).mpr hfound.symm, (hfirst _).mp hfound⟩

end SceneSelect.Scene
