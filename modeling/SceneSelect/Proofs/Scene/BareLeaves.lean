import SceneSelect.Proofs.Scene.Grafting
import SceneSelect.Proofs.Scene.Leaves

/-!
# `Proofs/Scene/BareLeaves.lean` — which edits put something below a text leaf

A text leaf that brings children with it is refused, in whatever way it comes. But the node that a child is
placed below is only asked whether it is there, so a text leaf takes a child like any other node. These are
the only edits that break the promise of `BareLeaves`: **an edit of a scene whose text leaves are bare leaves
them bare if and only if it places nothing below one** (`Tidy.bareLeaves_edit_iff`), and the same holds of a
run of edits (`bareLeaves_throughout_iff`).
-/

set_option autoImplicit false

namespace SceneSelect

/-- The edits that place a node below a text leaf. A snapshot that is refused itself places none. -/
def Edit.PlacesBelowText (s : Scene) : Edit → Prop
  | .appendChild parent _ => s.IsText parent
  | .appendSnapshot parent snapshot => s.IsText parent ∧ snapshot.isRefused = false
  | .mountRoot .. | .remove _ | .link .. | .unlink .. | .relabel .. => False

instance (s : Scene) : (e : Edit) → Decidable (e.PlacesBelowText s)
  | .appendChild parent _ => inferInstanceAs (Decidable (s.IsText parent))
  | .appendSnapshot parent snapshot =>
    inferInstanceAs (Decidable (s.IsText parent ∧ snapshot.isRefused = false))
  | .mountRoot .. | .remove _ | .link .. | .unlink .. | .relabel .. =>
    inferInstanceAs (Decidable False)

namespace Scene

variable {s t : Scene} {parent : Ref}

theorem IsText.contains (h : s.IsText parent) : s.contains parent = true := by
  obtain ⟨node, hnode, -⟩ := h
  exact contains_iff.mpr ⟨node, hnode⟩

/-- A graft on a text leaf is seen among its children. -/
theorem Grafted.not_bareLeaves {part : List Snapshot} {r : Ref} {refs : List Ref}
    (h : Grafted s t parent part [r] refs) (hparent : s.IsText parent) : ¬t.BareLeaves := by
  obtain ⟨node, hnode, htext⟩ := hparent
  have hold : parent ∉ refs := fun hmem =>
    h.fresh parent hmem (contains_iff.mpr ⟨node, hnode⟩)
  have hgrown : t.node? parent = some { node with children := node.children ++ [r] } := by
    rw [h.node? parent hold, if_pos rfl, hnode]
    rfl
  intro hbare
  have hnone := hbare parent ⟨_, hgrown, htext⟩
  rw [children_of_node hgrown] at hnone
  exact absurd hnone (by simp)

theorem Linked.not_bareLeaves_appendChild (h : Linked s []) (hparent : s.IsText parent)
    (label : Label) : ¬(s.appendChild parent label).2.BareLeaves := by
  obtain ⟨r, t, happend, -, hgraft⟩ := h.appendChild_grafted hparent.contains label
  rw [happend]
  exact hgraft.not_bareLeaves hparent

theorem Linked.not_bareLeaves_appendSnapshot (h : Linked s []) (hparent : s.IsText parent)
    {snapshot : Snapshot} (hrefused : snapshot.isRefused = false) :
    ¬(s.appendSnapshot parent snapshot).2.BareLeaves := by
  obtain ⟨kids, refs, hgraft, -, -⟩ := h.appendSnapshot_grafted hparent.contains snapshot
  obtain ⟨part, hplaced⟩ := Snapshot.exists_placed hrefused
  rw [hplaced] at hgraft
  obtain ⟨r, rfl⟩ := hgraft.shown.exists_singleton
  exact hgraft.not_bareLeaves hparent

/-- A text leaf that brings children with it is refused, and nothing changes. -/
theorem appendSnapshot_of_text (s : Scene) (parent : Ref) {label : Label} {children : List Snapshot}
    {text : String} (htext : label.text = some text) (hchildren : children ≠ []) :
    s.appendSnapshot parent (.node label children) = (.error (.textWithChildren text), s) := by
  have hlabel : (Snapshot.node label children).placedLabel = .error (.textWithChildren text) := by
    rw [Snapshot.placedLabel, htext]
    exact if_neg fun hempty => hchildren (List.isEmpty_iff.mp hempty)
  rw [appendSnapshot, hlabel]

/-! ## One edit -/

theorem Tidy.bareLeaves_edit_iff (h : s.Tidy) {e : Edit} (he : e.KeepsLinks) :
    (s.edit e).2.BareLeaves ↔ ¬e.PlacesBelowText s := by
  cases e with
  | mountRoot key label => exact iff_of_true (h.mountRoot key label).bare id
  | remove r => exact iff_of_true (h.remove r).bare id
  | relabel r change => exact iff_of_true (h.relabel r change).bare id
  | link parent child => exact he.elim
  | unlink parent child => exact he.elim
  | appendChild parent label =>
    constructor
    · intro hbare htext
      exact h.linked.not_bareLeaves_appendChild htext label hbare
    · intro htext
      exact (h.appendChild htext label).tidy.bare
  | appendSnapshot parent snapshot =>
    constructor
    · rintro hbare ⟨htext, hrefused⟩
      exact h.linked.not_bareLeaves_appendSnapshot htext hrefused hbare
    · intro hplaces
      by_cases htext : s.IsText parent
      · -- below a text leaf only a refusal is left, which changes nothing
        have hrefused : snapshot.isRefused = true := by
          by_contra hnot
          exact hplaces ⟨htext, Bool.eq_false_iff.mpr hnot⟩
        obtain ⟨cause, hstays⟩ : ∃ cause, s.appendSnapshot parent snapshot = (.error cause, s) :=
          appendSnapshot_stays (Or.inr hrefused)
        show (s.appendSnapshot parent snapshot).2.BareLeaves
        rw [hstays]
        exact h.bare
      · exact (h.appendSnapshot htext snapshot).tidy.bare

/-! ## Runs -/

theorem editAll_take_succ (s : Scene) {edits : List Edit} {n : Nat} (hn : n < edits.length) :
    s.editAll (edits.take (n + 1)) = ((s.editAll (edits.take n)).edit edits[n]).2 := by
  rw [List.take_succ_eq_append_getElem hn, editAll_append]
  rfl

/-- The promise is kept from the start on, or there is an edit that breaks it. -/
theorem Tidy.bareLeaves_editAll_iff (h : s.Tidy) {edits : List Edit}
    (hedits : ∀ e ∈ edits, e.KeepsLinks) :
    (∀ n, (s.editAll (edits.take n)).BareLeaves) ↔
      ∀ n (hn : n < edits.length), ¬edits[n].PlacesBelowText (s.editAll (edits.take n)) := by
  have hlinked : ∀ n, Linked (s.editAll (edits.take n)) [] := fun n =>
    h.linked.editAll fun e he => hedits e (List.mem_of_mem_take he)
  have hstep : ∀ n (hn : n < edits.length), (s.editAll (edits.take n)).BareLeaves →
      ((s.editAll (edits.take (n + 1))).BareLeaves ↔
        ¬edits[n].PlacesBelowText (s.editAll (edits.take n))) := by
    intro n hn hbare
    rw [editAll_take_succ s hn]
    have htidy : (s.editAll (edits.take n)).Tidy := ⟨hlinked n, hbare⟩
    exact htidy.bareLeaves_edit_iff (hedits _ (List.getElem_mem hn))
  constructor
  · intro hall n hn
    exact (hstep n hn (hall n)).mp (hall (n + 1))
  · intro hnone n
    induction n with
    | zero => exact h.bare
    | succ n ih =>
      by_cases hn : n < edits.length
      · exact (hstep n hn ih).mpr (hnone n hn)
      · -- there are no more edits to make
        have hshort : edits.take (n + 1) = edits.take n := by
          rw [List.take_of_length_le (by omega), List.take_of_length_le (by omega)]
        rw [hshort]
        exact ih

/-- **Text leaves stay leaves all through a run of edits if and only if no edit of it places a node below
a text leaf; and whatever the scene, a snapshot of a text leaf with children is refused and changes
nothing.** -/
theorem bareLeaves_throughout_iff {start : Scene} {edits : List Edit}
    (hstart : start = {} ∨ ∃ roots, Scene.ofSnapshots roots = .ok start)
    (hedits : ∀ e ∈ edits, e.KeepsLinks) :
    ((∀ n, (start.editAll (edits.take n)).BareLeaves) ↔
      ∀ n (hn : n < edits.length), ¬edits[n].PlacesBelowText (start.editAll (edits.take n))) ∧
    ∀ (s : Scene) (parent : Ref) (label : Label) (children : List Snapshot) (text : String),
      label.text = some text → children ≠ [] →
        s.edit (.appendSnapshot parent (.node label children)) =
          (.refused (.textWithChildren text), s) := by
  have htidy : start.Tidy := by
    rcases hstart with rfl | ⟨roots, hbuild⟩
    · exact Tidy.empty
    · exact Tidy.ofSnapshots hbuild
  refine ⟨htidy.bareLeaves_editAll_iff hedits, ?_⟩
  intro s parent label children text htext hchildren
  rw [edit, appendSnapshot_of_text s parent htext hchildren]
  rfl

/-- A text leaf is asked to take a snapshot that is refused; then it is removed, and a structured node in its
slot takes a child. -/
theorem bareLeaves_throughout_iff_reuse :
    let roots := [("main", Snapshot.node {} [.node { text := some "Save" } []])]
    let edits : List Edit :=
      [.appendSnapshot ⟨1⟩ (.node { text := some "a" } [.node {} []]), .remove ⟨1⟩,
        .appendChild ⟨0⟩ {}, .appendChild ⟨1⟩ { text := some "b" }]
    let start := (Scene.ofSnapshots roots).toOption.getD {}
    Scene.ofSnapshots roots = .ok start ∧ (∀ e ∈ edits, e.KeepsLinks) ∧ start.IsText ⟨1⟩ ∧
      (start.editAll edits).children ⟨1⟩ = [⟨2⟩] ∧
      ∀ n, (start.editAll (edits.take n)).BareLeaves := by
  intro roots edits start
  have hbuild : Scene.ofSnapshots roots = .ok start := rfl
  have hedits : ∀ e ∈ edits, e.KeepsLinks := by
    simp [edits, Edit.KeepsLinks]
  have hnone : ∀ n : Fin edits.length, ¬edits[n].PlacesBelowText (start.editAll (edits.take n)) := by
    decide +kernel
  refine ⟨hbuild, hedits, by decide +kernel, by decide +kernel, ?_⟩
  exact (bareLeaves_throughout_iff (Or.inr ⟨roots, hbuild⟩) hedits).1.mpr fun n hn => hnone ⟨n, hn⟩

/-- A text leaf takes a child, and is a text leaf still. -/
theorem text_leaf_takes_child :
    let s := (Scene.ofSnapshots [("main", .node { text := some "Save" } [])]).toOption.getD {}
    let t := (s.appendChild ⟨0⟩ { tag := some "div" }).2
    (s.appendChild ⟨0⟩ { tag := some "div" }).1 = .ok ⟨1⟩ ∧ t.IsText ⟨0⟩ ∧
      t.children ⟨0⟩ = [⟨1⟩] ∧ ¬t.BareLeaves := by
  intro s t
  have htext : t.IsText ⟨0⟩ := by decide +kernel
  have hchild : t.children ⟨0⟩ = [⟨1⟩] := by decide +kernel
  refine ⟨by decide +kernel, htext, hchild, fun hbare => ?_⟩
  exact absurd ((hbare ⟨0⟩ htext).symm.trans hchild) (by simp)

end Scene

end SceneSelect
