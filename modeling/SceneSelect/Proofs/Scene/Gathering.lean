import SceneSelect.Proofs.Scene.Edits
import SceneSelect.Proofs.Scene.Texts

/-!
# `Proofs/Scene/Gathering.lean` — a stack of texts is a recursion

The text of a node has two descriptions. One is a recursion over the tree, in three equations
(`GivesTexts`). The other is a loop with a stack: the reference on top is taken off, a text is put behind
what was gathered so far, and a node without one leaves its children on the stack, the first of them on top.
`Gathers` is that loop as it is, without a bound on the levels it enters, so that ending is part of what
there is to show.

Several levels of the tree are open on the stack at once. The invariant is that none of them needs to know
about the others: **a reference on top of a stack comes to the texts of its node being put behind, and then
the rest of the stack** (`GivesTexts.comesTo`). That goes by induction from the children to the node, which is
where the scene has to be a forest. The rest is that the bounded walk enters every level there is
(`GivesTexts.texts_eq`).
-/

set_option autoImplicit false

namespace SceneSelect.Scene

variable {s : Scene} {r : Ref} {T : Ref → List String}

/-! ## The loop and the recursion -/

/-- Working off a stack, with what was gathered so far, comes to an end with this text. -/
inductive Gathers (s : Scene) : List Ref → Option String → Option String → Prop where
  | empty {found : Option String} : Gathers s [] found found
  | dead {r : Ref} {rest : List Ref} {found result : Option String} (hr : ¬s.contains r = true)
      (h : Gathers s rest found result) : Gathers s (r :: rest) found result
  | leaf {r : Ref} {rest : List Ref} {found result : Option String} {text : String}
      (hr : s.leafText? r = some text) (h : Gathers s rest (some (found.getD "" ++ text)) result) :
      Gathers s (r :: rest) found result
  | inner {r : Ref} {rest : List Ref} {found result : Option String} (hr : s.contains r = true)
      (hinner : s.leafText? r = none) (h : Gathers s (s.children r ++ rest) found result) :
      Gathers s (r :: rest) found result

/-- The texts at or below each reference, from left to right: the own text of a text leaf, those of the
children of any other node, and none where there is no node. -/
structure GivesTexts (s : Scene) (T : Ref → List String) : Prop where
  leaf : ∀ {r text}, s.leafText? r = some text → T r = [text]
  inner : ∀ {r}, s.contains r = true → s.leafText? r = none → T r = (s.children r).flatMap T
  dead : ∀ {r}, ¬s.contains r = true → T r = []

/-- The loop has one result. -/
theorem Gathers.unique {stack : List Ref} {found result other : Option String}
    (h : s.Gathers stack found result) (h' : s.Gathers stack found other) : result = other := by
  induction h with
  | empty =>
    cases h'
    rfl
  | dead hr _ ih =>
    cases h' with
    | dead _ h' => exact ih h'
    | leaf hr' => exact absurd (contains_of_leafText hr') hr
    | inner hr' => exact absurd hr' hr
  | leaf hr _ ih =>
    cases h' with
    | dead hr' => exact absurd (contains_of_leafText hr) hr'
    | leaf hr' h' =>
      obtain rfl := Option.some.inj (hr.symm.trans hr')
      exact ih h'
    | inner _ hinner => exact absurd (hr.symm.trans hinner) (by simp)
  | inner hr hinner _ ih =>
    cases h' with
    | dead hr' => exact absurd hr hr'
    | leaf hr' => exact absurd (hr'.symm.trans hinner) (by simp)
    | inner _ _ h' => exact ih h'

/-! ## The loop ends -/

/-- On top of any stack the reference comes to these texts being put behind what was gathered. -/
def ComesTo (s : Scene) (r : Ref) (ts : List String) : Prop :=
  ∀ rest found result, s.Gathers rest (putBehind found ts) result → s.Gathers (r :: rest) found result

/-- The same for several references, one behind the other. -/
theorem Gathers.front {refs rest : List Ref} {found result : Option String}
    (hrefs : ∀ c ∈ refs, s.ComesTo c (T c))
    (h : s.Gathers rest (putBehind found (refs.flatMap T)) result) :
    s.Gathers (refs ++ rest) found result := by
  induction refs generalizing found with
  | nil => exact h
  | cons c refs ih =>
    obtain ⟨hfirst, hothers⟩ := List.forall_mem_cons.mp hrefs
    rw [List.flatMap_cons, putBehind_append] at h
    exact hfirst _ _ _ (ih hothers h)

theorem GivesTexts.comesTo (hs : s.IsForest) (hT : s.GivesTexts T) (r : Ref) :
    s.ComesTo r (T r) := by
  by_cases hr : s.contains r = true
  · refine hs.induction_below (P := fun r => s.ComesTo r (T r)) ?_ hr
    intro r hr hchildren rest found result h
    cases htext : s.leafText? r with
    | some text =>
      rw [hT.leaf htext] at h
      exact .leaf htext h
    | none =>
      rw [hT.inner hr htext] at h
      exact .inner hr htext (Gathers.front hchildren h)
  · intro rest found result h
    rw [hT.dead hr] at h
    exact .dead hr h

/-! ## The levels are enough -/

/-- Walks that may go as deep as the scene list the same texts. -/
theorem texts_stable (hs : s.IsForest) {n m : Nat} (hr : s.contains r = true)
    (hn : s.levels ≤ n + s.depth r) (hm : s.levels ≤ m + s.depth r) : s.texts n r = s.texts m r := by
  have hdepth := hs.depth_lt_levels hr
  induction n generalizing m r with
  | zero => exact absurd hdepth (by omega)
  | succ n ih =>
    obtain ⟨m, rfl⟩ : ∃ k, m = k + 1 := Nat.exists_eq_succ_of_ne_zero (by omega)
    rw [texts, texts]
    cases s.leafText? r with
    | some text => rfl
    | none =>
      refine List.flatMap_congr fun c hc => ?_
      have hlive := hs.contains_child hc
      have hdeeper := hs.depth_of_child hc
      exact ih hlive (by omega) (by omega) (hs.depth_lt_levels hlive)

theorem texts_of_dead (hr : ¬s.contains r = true) (n : Nat) : s.texts n r = [] := by
  cases n with
  | zero => rfl
  | succ n =>
    have hnone : s.leafText? r = none := by
      rw [leafText?, node?_eq_none hr]
      rfl
    rw [texts, hnone, children_of_dead hr]
    rfl

/-- The bounded walk, with as many levels as there are slots, solves the equations. -/
theorem givesTexts_texts (hs : s.IsForest) : s.GivesTexts (s.texts s.levels) where
  leaf {r text} htext := by
    have hdepth := hs.depth_lt_levels (contains_of_leafText htext)
    obtain ⟨n, hn⟩ := Nat.exists_eq_succ_of_ne_zero (Nat.ne_zero_of_lt hdepth)
    rw [hn, texts, htext]
  inner {r} hr hinner := by
    have hdepth := hs.depth_lt_levels hr
    obtain ⟨n, hn⟩ := Nat.exists_eq_succ_of_ne_zero (Nat.ne_zero_of_lt hdepth)
    rw [hn, texts, hinner]
    refine List.flatMap_congr fun c hc => ?_
    have hdeeper := hs.depth_of_child hc
    exact texts_stable hs (hs.contains_child hc) (by omega) (by omega)
  dead hr := texts_of_dead hr _

/-- The equations have no other solution. -/
theorem GivesTexts.unique (hs : s.IsForest) {T' : Ref → List String} (hT : s.GivesTexts T)
    (hT' : s.GivesTexts T') : T = T' := by
  funext r
  by_cases hr : s.contains r = true
  · refine hs.induction_below (P := fun r => T r = T' r) ?_ hr
    intro r hr hchildren
    cases htext : s.leafText? r with
    | some text => rw [hT.leaf htext, hT'.leaf htext]
    | none =>
      rw [hT.inner hr htext, hT'.inner hr htext]
      exact List.flatMap_congr hchildren
  · rw [hT.dead hr, hT'.dead hr]

theorem GivesTexts.texts_eq (hs : s.IsForest) (hT : s.GivesTexts T) : s.texts s.levels = T :=
  (givesTexts_texts hs).unique hs hT

/-! ## The text of a node -/

theorem join_of_empty {ts : List String} (h : ∀ text ∈ ts, text = "") : String.join ts = "" := by
  induction ts with
  | nil => rfl
  | cons t ts ih =>
    obtain ⟨rfl, hrest⟩ := List.forall_mem_cons.mp h
    rw [String.join_cons, ih hrest]
    rfl

/-- **The texts of the nodes are given by their recursion and by nothing else. From any reference the loop
ends, and with all texts of the node put together, or with none if there are none; so leaves with empty
texts come to an empty text.** -/
theorem text?_recursive (hs : s.IsForest) :
    (∃! T, s.GivesTexts T) ∧ ∀ T, s.GivesTexts T → ∀ r,
      (∀ found, s.Gathers [r] none found ↔ found = s.text? r) ∧
        (s.text? r = if T r = [] then none else some (String.join (T r))) ∧
        (T r ≠ [] → (∀ text ∈ T r, text = "") → s.text? r = some "") := by
  refine ⟨⟨_, givesTexts_texts hs, fun T hT => (hT.texts_eq hs).symm⟩, fun T hT r => ?_⟩
  have htext : s.text? r = if T r = [] then none else some (String.join (T r)) := by
    rw [text?_eq, hT.texts_eq hs]
    simp only [List.isEmpty_iff]
  have hend : s.Gathers [r] none (s.text? r) := by
    rw [text?_eq, hT.texts_eq hs, ← putBehind_none]
    exact hT.comesTo hs r [] none _ .empty
  refine ⟨fun found => ⟨fun h => h.unique hend, fun h => h ▸ hend⟩, htext, fun hmet hempty => ?_⟩
  rw [htext, if_neg hmet, join_of_empty hempty]

/-- Two leaves with empty texts; what was placed below one of them is not looked at. There is no leaf below
the last child, and no node at all at the last reference. -/
theorem text?_recursive_empty :
    let leaf := Snapshot.node { text := some "" } []
    let roots := [("main", Snapshot.node {} [leaf, .node {} [leaf], .node {} []])]
    let start := (Scene.ofSnapshots roots).toOption.getD {}
    let s := (start.appendChild ⟨1⟩ { text := some "unseen" }).2
    s.IsForest ∧ s.children ⟨1⟩ = [⟨5⟩] ∧ s.Gathers [⟨0⟩] none (some "") ∧
      s.Gathers [⟨4⟩] none none ∧ s.Gathers [⟨9⟩] none none := by
  intro leaf roots start s
  have hbuilds : (Scene.ofSnapshots roots).toOption.isSome = true := by decide +kernel
  have hbuild : Scene.ofSnapshots roots = .ok start := eq_ok_getD hbuilds {}
  have hs : s.IsForest := ((Linked.ofSnapshots hbuild).appendChild ⟨1⟩ _).isForest
  obtain ⟨⟨T, hT, -⟩, hall⟩ := text?_recursive hs
  have hends : ∀ r found, found = s.text? r → s.Gathers [r] none found :=
    fun r found => (hall T hT r).1 found |>.mpr
  exact ⟨hs, by decide +kernel, hends ⟨0⟩ _ (by decide +kernel), hends ⟨4⟩ _ (by decide +kernel),
    hends ⟨9⟩ _ (by decide +kernel)⟩

end SceneSelect.Scene
