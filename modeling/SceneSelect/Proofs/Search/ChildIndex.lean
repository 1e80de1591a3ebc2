import SceneSelect.Proofs.Search.Alike
import SceneSelect.Proofs.Search.Descent
import SceneSelect.Proofs.Search.Order
import SceneSelect.Proofs.Search.Roots

/-!
# `Proofs/Search/ChildIndex.lean` — what a child index picks from

A step without an index keeps each of its finds once. A child index picks from the finds of a starting
point before that is done, so it also counts the repeats. There are repeats when two nodes that the step
accepts are found as the same one, which a text filter can bring about, or when a part of the scene is
searched twice.

> **For a first step a child index picks from what the step finds without one exactly if the descent has
> no repeats. It has none when the top nodes are apart and the step finds different nodes as different
> ones** (`find_childIndex`).

The bare index of a step does not share this: it picks after the repeats are gone (`follow`).
-/

set_option autoImplicit false

namespace SceneSelect

open SceneSelect.Path

/-! ## Repeats -/

/-- Repeats can be told from what the positions pick. -/
theorem Path.Position.forall_pick_eraseDups_iff {items : List Ref}
    (hlen : items.length < Text.Numeral.signed64) :
    (∀ p : Position, p.pick items = p.pick items.eraseDups) ↔ items.Nodup := by
  constructor
  · -- the place behind the last of the distinct items is taken if there are repeats
    intro h
    by_contra hrepeats
    have hlt := length_eraseDups_lt hrepeats
    let p : Position := .nth (Int64.ofNat items.eraseDups.length)
    have hplace : ∀ len, len < Text.Numeral.signed64 → p.index? len =
        if items.eraseDups.length < len then some items.eraseDups.length else none :=
      fun len => index?_nth (Nat.lt_trans hlt hlen)
    have hnone : p.pick items = [] := by
      rw [h p, pick_eq_nil_iff, hplace _ (Nat.lt_trans hlt hlen), if_neg (Nat.lt_irrefl _)]
    rw [pick_eq_nil_iff, hplace _ hlen, if_pos hlt] at hnone
    exact absurd hnone (by simp)
  · intro h p
    rw [eraseDups_of_nodup h]

/-! ## Descents with a child index -/

namespace Area

variable {a : Area} {step : Step} {strict : Bool}

/-- A first step that goes down, with no index among its filters. -/
theorem find_of_unindexed (hsibling : step.sibling = 0) (hindex : ∀ p, Filter.index p ∉ step.filters)
    (hchild : ∀ p, Filter.childIndex p ∉ step.filters) :
    a.find strict [step] = .ok (match step.childIndex with
      | some p => p.pick (a.descend step .above)
      | none => (a.descend step .above).eraseDups) := by
  rw [find_singleton, follow, childIndex_of_no_filter hchild]
  show slice strict step ([Origin.above].flatMap (a.reach step step.childIndex)).eraseDups = _
  rw [slice_of_unindexed hindex, List.flatMap_singleton]
  unfold reach
  rw [if_pos hsibling]
  cases step.childIndex with
  | none => rfl
  | some p => exact congrArg Except.ok (eraseDups_of_nodup (pairwise_of_length_le (p.length_pick_le _)))

end Area

/-! ## Descents without repeats -/

namespace Scene

variable {s : Scene} {step : Step} {parts : List (Ref → Prop)}

/-- Different nodes that the step accepts are found as different nodes. -/
def KeepsApart (s : Scene) (step : Step) : Prop :=
  ∀ m n found, s.accept? step m = some found → s.accept? step n = some found → m = n

theorem Steady.keepsApart (h : s.Steady step) : s.KeepsApart step :=
  fun m n found hm hn => (h m found hm).symm.trans (h n found hn)

/-- No two of the parts have a node in common. -/
def DisjointParts (parts : List (Ref → Prop)) : Prop := parts.Pairwise fun P Q => ∀ n, P n → ¬Q n

/-- Nodes that are listed part by part are all different if the parts are disjoint. -/
theorem nodup_flatten_of_lists (hs : s.IsForest) {nodes : List (List Ref)}
    (hlists : List.Forall₂ s.Lists parts nodes) (hparts : DisjointParts parts) :
    nodes.flatten.Nodup ∧ ∀ n ∈ nodes.flatten, ∃ P ∈ parts, P n := by
  induction hlists with
  | nil => simp
  | @cons P listed parts nodes hlisted _ ih =>
    obtain ⟨hfirst, hrest⟩ := List.pairwise_cons.mp hparts
    obtain ⟨hnodup, hmem⟩ := ih hrest
    rw [List.flatten_cons]
    refine ⟨List.nodup_append'.mpr ⟨hlisted.1.imp fun h heq => ?_, hnodup, fun n hn hn' => ?_⟩,
      fun n hn => ?_⟩
    · exact hs.precedes_irrefl _ (heq ▸ h)
    · obtain ⟨Q, hQ, hnQ⟩ := hmem n hn'
      exact hfirst Q hQ n ((hlisted.2 n).mp hn) hnQ
    · rcases List.mem_append.mp hn with hn | hn
      · exact ⟨P, List.mem_cons_self, (hlisted.2 n).mp hn⟩
      · obtain ⟨Q, hQ, hnQ⟩ := hmem n hn
        exact ⟨Q, List.mem_cons_of_mem P hQ, hnQ⟩

theorem YieldsAll.nodup (hs : s.IsForest) {found : List Ref} (h : s.YieldsAll step parts found)
    (haccepts : ∀ P ∈ parts, ∀ n, P n → s.Accepts step n) (hparts : DisjointParts parts)
    (happart : s.KeepsApart step) : found.Nodup := by
  obtain ⟨nodes, hlists, htargets⟩ := h
  obtain ⟨hnodup, hmem⟩ := nodup_flatten_of_lists hs hlists hparts
  have hfound : List.Forall₂ (fun n target => s.accept? step n = some target) nodes.flatten found := by
    have hall : ∀ n ∈ nodes.flatten, s.Accepts step n := fun n hn => by
      obtain ⟨P, hP, hnP⟩ := hmem n hn
      exact haccepts P hP n hnP
    exact ((List.forall₂_and_left _ _).mpr ⟨hall, htargets⟩).imp fun n target h =>
      (accept?_eq_some_iff hs).mpr h
  have hunique : Relator.BiUnique fun n target => s.accept? step n = some target :=
    ⟨fun m n target hm hn => happart m n target hm hn,
      fun n target other h h' => Option.some.inj (h.symm.trans h')⟩
  exact (List.rel_nodup hunique hfound).mp hnodup

end Scene

namespace Area

variable {a : Area} {step : Step}

/-- No node is at or below two of the top nodes. -/
def Apart (a : Area) : Prop := Scene.DisjointParts (a.parts .above)

theorem Level.apart (ha : a.scene.IsForest) (h : a.Level) : a.Apart := by
  refine List.pairwise_map.mpr (h.imp ?_)
  rintro top other ⟨c, d, hbeside, htop, hother⟩ n hn hn'
  exact ha.beside_disjoint hbeside (hn.trans htop) (hn'.trans hother)

/-- What is listed of each top node by a condition for matches has no repeats. -/
theorem nodup_of_yieldsAll (ha : a.scene.IsForest) {P : (Ref → Prop) → Ref → Prop}
    (hP : ∀ part n, P part n → part n ∧ a.scene.Accepts step n) {found : List Ref}
    (h : a.scene.YieldsAll step ((a.parts .above).map P) found) (htops : a.Apart)
    (happart : a.scene.KeepsApart step) : found.Nodup := by
  refine h.nodup ha ?_ ?_ happart
  · intro Q hQ n hn
    obtain ⟨part, -, rfl⟩ := List.mem_map.mp hQ
    exact (hP part n hn).2
  · refine List.pairwise_map.mpr (htops.imp fun {Q R} h n hQ hR => ?_)
    exact h n (hP Q n hQ).1 (hP R n hR).1

theorem nodup_descend (ha : a.scene.IsForest) (htops : a.Apart) (happart : a.scene.KeepsApart step) :
    (a.descend step .above).Nodup := by
  cases hmode : step.mode with
  | exact =>
    exact nodup_of_yieldsAll ha (fun _ _ h => ⟨h.1, h.2.1⟩) (yieldsAll_exact ha hmode .above) htops
      happart
  | any =>
    exact nodup_of_yieldsAll ha (fun _ _ h => ⟨h.1, h.2.1⟩) (yieldsAll_any ha hmode .above) htops
      happart
  | ancestor =>
    unfold descend
    rw [hmode]
    exact List.nodup_nil

/-- **A child index picks from the finds of the descent, repeats counted. It picks from what the step
finds without it exactly if there are no repeats**, and there are none when the top nodes are apart and
the step keeps what it finds apart. -/
theorem find_childIndex (ha : a.scene.IsForest) (hsibling : step.sibling = 0)
    (hindex : ∀ p, Filter.index p ∉ step.filters) (hchild : ∀ p, Filter.childIndex p ∉ step.filters)
    (hnone : step.childIndex = none) (strict : Bool) :
    a.find strict [step] = .ok (a.descend step .above).eraseDups ∧
      (∀ p, a.find strict [{ step with childIndex := some p }] =
        .ok (p.pick (a.descend step .above))) ∧
      ((a.descend step .above).Nodup → ∀ p,
        a.find strict [{ step with childIndex := some p }] = (a.find strict [step]).map p.pick) ∧
      ((a.descend step .above).length < Text.Numeral.signed64 →
        (∀ p, a.find strict [{ step with childIndex := some p }] =
          (a.find strict [step]).map p.pick) → (a.descend step .above).Nodup) ∧
      (a.Apart → a.scene.KeepsApart step → (a.descend step .above).Nodup) := by
  have hplain : a.find strict [step] = .ok (a.descend step .above).eraseDups := by
    rw [find_of_unindexed hsibling hindex hchild, hnone]
  have hpicked : ∀ p, a.find strict [{ step with childIndex := some p }] =
      .ok (p.pick (a.descend step .above)) := fun p => by
    have hsame : a.descend { step with childIndex := some p } .above = a.descend step .above :=
      descend_congr rfl rfl
    rw [← hsame]
    exact find_of_unindexed hsibling hindex hchild
  refine ⟨hplain, hpicked, fun hnodup p => ?_, fun hlen hall => ?_, nodup_descend ha⟩
  · rw [hplain, hpicked, eraseDups_of_nodup hnodup]
    rfl
  · refine (Position.forall_pick_eraseDups_iff hlen).mp fun p => ?_
    have heq := hall p
    rw [hplain, hpicked] at heq
    exact Except.ok.inj heq

/-- Two labels with elements below a panel, of which a position picks one. -/
theorem find_childIndex_labels :
    let button : Label := { tag := some "label", element := some {} }
    let label := Snapshot.node button [.node { text := some "Save" } []]
    let roots := [("main", Snapshot.node { tag := some "panel", element := some {} } [label, label])]
    let s := (Scene.ofSnapshots roots).toOption.getD {}
    let a : Area := ⟨s, s.rootRefs⟩
    let step : Step :=
      { mode := .any, tag := some (.named "label"), filters := [.text ⟨.equal, "Save"⟩] }
    s.IsForest ∧ a.Apart ∧ s.KeepsApart step ∧ a.find true [step] = .ok [⟨1⟩, ⟨3⟩] ∧
      a.find true [{ step with childIndex := some (.last 0) }] = .ok [⟨3⟩] ∧
      a.find true [{ step with childIndex := some (.nth 2) }] = .ok [] := by
  intro button label roots s a step
  have hs : s.IsForest := Scene.isForest_ofSnapshots roots
  have hall : (s.nodes.toList.all fun e => e.2.isText || !e.2.isVirtual) = true := by
    decide +kernel
  have happart : s.KeepsApart step := by
    refine (Scene.steady_of_elements (fun r node hnode hinner => ?_) step).keepsApart
    have helement := List.all_eq_true.mp hall (r, node) (Arena.mem_toList.mpr hnode)
    simpa [hinner] using helement
  have hlevel : a.Level := s.level_tops .everywhere
  have hdescend : a.descend step .above = [⟨1⟩, ⟨3⟩] := by decide +kernel
  clear_value s
  have hapart : a.Apart := hlevel.apart hs
  obtain ⟨hplain, -, hpicks, -, hnodup⟩ :=
    @find_childIndex a step hs rfl (by simp [step]) (by simp [step]) rfl true
  rw [hdescend] at hplain
  refine ⟨hs, hapart, happart, hplain, ?_, ?_⟩
  all_goals
    rw [hpicks (hnodup hapart happart), hplain]
    decide

/-- Two labels without elements are both found as the panel around them. It is found once, and yet a child
index may ask for it a second time. -/
theorem find_childIndex_repeats :
    let label := Snapshot.node { tag := some "label" } [.node { text := some "Save" } []]
    let panel : Label := { tag := some "panel", element := some { handle := 1 } }
    let roots := [("main", Snapshot.node panel [label, label])]
    let s := (Scene.ofSnapshots roots).toOption.getD {}
    let step : Step :=
      { mode := .any, tag := some (.named "label"), filters := [.text ⟨.equal, "Save"⟩] }
    let second : Step := { step with childIndex := some (.nth 1) }
    let found : List Ref := [⟨0⟩]
    s.IsForest ∧ Path.parse "~label[text=Save]" = .ok [step] ∧
      Path.parse "~label[text=Save]AND[:1]" = .ok [second] ∧
      Area.find ⟨s, s.rootRefs⟩ false [step] = .ok found ∧
      Area.find ⟨s, s.rootRefs⟩ false [second] = .ok [⟨0⟩] ∧ (Position.nth 1).pick found = [] := by
  intro label panel roots s step second found
  exact ⟨Scene.isForest_ofSnapshots roots, by decide +kernel, by decide +kernel, by decide +kernel,
    by decide +kernel, by decide⟩

end Area

end SceneSelect
