import SceneSelect.Proofs.Search.Confinement
import SceneSelect.Proofs.Search.Faults

/-!
# `Proofs/Search/Roots.lean` — a search everywhere is a search root by root

A search of all roots works on the nodes of all of them at once, and takes away what it found twice from
all finds together. It might as well have gone through the roots one after the other:

* what a step finds from a node depends on the top nodes at or above this node only
  (`reach_congr_tops`), and of all roots there is just one, its own;
* what it finds stays below that root, so that two roots never find the same node, and taking away
  what was found twice can be done for each root by itself (`eraseDups_roots`).

Only two things look at the finds of all roots together: a bare index, and a child index of the first
step, which starts above the roots. **Every path that was read and has neither finds in all roots what it
finds in each of them, in mount order** (`find_everywhere`).
-/

set_option autoImplicit false

namespace SceneSelect

open SceneSelect.Path

/-! ## Steps that look at each starting point by itself -/

namespace Area

variable {a : Area} {strict : Bool} {step : Step}

theorem slice_of_unindexed (h : ∀ p, Filter.index p ∉ step.filters) (found : List Ref) :
    slice strict step found = .ok found := by
  have hnone : step.soleIndex? = none := by
    rw [Option.eq_none_iff_forall_ne_some]
    intro p hsole
    exact h p (soleIndex?_eq_some hsole ▸ List.mem_singleton.mpr rfl)
  rw [slice, hnone]

theorem follow_of_unindexed (hstep : step.WellFormed) (h : ∀ p, Filter.index p ∉ step.filters)
    (origins : List Origin) :
    a.follow strict origins step =
      .ok (origins.flatMap (a.reach step step.childIndex)).eraseDups := by
  rw [follow, childIndex_of_wellFormed hstep]
  exact slice_of_unindexed h _

/-- No finds lead to no finds, whether the search is broken off there or goes on. -/
theorem next_of_unindexed (hstep : step.WellFormed) (h : ∀ p, Filter.index p ∉ step.filters)
    (found : List Ref) :
    a.next strict found step =
      .ok ((found.map .node).flatMap (a.reach step step.childIndex)).eraseDups := by
  rw [next]
  split
  · rename_i hempty
    rw [List.isEmpty_iff.mp hempty]
    rfl
  · exact follow_of_unindexed hstep h _

/-! ## Which top nodes matter -/

section Tops

variable {s : Scene} {tops tops' : List Ref} {r : Ref}

theorem firstAbove?_congr_tops {rs : List Ref} (h : ∀ q ∈ rs, (q ∈ tops ↔ q ∈ tops')) :
    firstAbove? ⟨s, tops⟩ step rs = firstAbove? ⟨s, tops'⟩ step rs := by
  induction rs with
  | nil => rfl
  | cons q rest ih =>
    obtain ⟨hq, hrest⟩ := List.forall_mem_cons.mp h
    simp only [firstAbove?, hq, ih hrest]

/-- What a step finds from a node does not depend on top nodes elsewhere. -/
theorem reach_congr_tops (h : ∀ q, s.ClimbsTo r q → (q ∈ tops ↔ q ∈ tops'))
    (index : Option Position) :
    reach ⟨s, tops⟩ step index (.node r) = reach ⟨s, tops'⟩ step index (.node r) := by
  have hself := h r .refl
  have hancestor : ancestor? ⟨s, tops⟩ step r = ancestor? ⟨s, tops'⟩ step r := by
    have hclimb : ∀ q ∈ s.ancestors r, (q ∈ tops ↔ q ∈ tops') :=
      fun q hq => h q (Scene.climbsTo_of_mem_climb hq)
    simp only [ancestor?, hself, firstAbove?_congr_tops hclimb]
  have hsibling : sibling? ⟨s, tops⟩ step r = sibling? ⟨s, tops'⟩ step r := by
    simp only [sibling?, hself]
  have hdescend : descend ⟨s, tops⟩ step (.node r) = descend ⟨s, tops'⟩ step (.node r) := by
    unfold descend
    cases step.mode with
    | exact => rfl
    | any => rfl
    | ancestor => exact congrArg Option.toList hancestor
  simp only [reach, hdescend, hsibling]

end Tops

end Area

/-! ## One root at a time -/

namespace Scene

variable {s : Scene} {step : Step} {root r : Ref}

/-- From a node below a root, a search of all roots finds what a search of this root finds. -/
theorem reach_roots (hs : s.IsForest) (hroot : root ∈ s.rootRefs) (hr : s.ClimbsTo r root)
    (index : Option Position) :
    Area.reach ⟨s, s.rootRefs⟩ step index (.node r) =
      Area.reach ⟨s, [root]⟩ step index (.node r) := by
  refine Area.reach_congr_tops (fun q hq => ?_) index
  rw [List.mem_singleton]
  constructor
  · exact fun hmem => hs.eq_of_climbsTo_roots hmem hroot hq hr
  · exact fun heq => heq ▸ hroot

/-- Above the roots a step without a child index looks at one root after the other. -/
theorem reach_above_roots (s : Scene) (step : Step) :
    Area.reach ⟨s, s.rootRefs⟩ step none .above =
      s.rootRefs.flatMap fun root => Area.reach ⟨s, [root]⟩ step none .above := by
  unfold Area.reach
  by_cases hsibling : step.sibling = 0
  · simp only [hsibling, if_true]
    unfold Area.descend
    cases step.mode with
    | exact => exact exactBelow_eq_flatMap s step s.levels s.rootRefs
    | any => exact anyBelow_eq_flatMap s step s.levels s.rootRefs
    | ancestor => exact (List.flatMap_eq_nil_iff.mpr fun _ _ => rfl).symm
  · simp only [hsibling, if_false]
    exact (List.flatMap_eq_nil_iff.mpr fun _ _ => rfl).symm

/-- Finds below different roots are different. -/
theorem eraseDups_roots (hs : s.IsForest) {finds : Ref → List Ref}
    (h : ∀ root ∈ s.rootRefs, ∀ r ∈ finds root, s.ClimbsTo r root) :
    (s.rootRefs.flatMap finds).eraseDups = s.rootRefs.flatMap fun root => (finds root).eraseDups := by
  refine eraseDups_flatMap (hs.roots_once.pairwise_of_forall_ne ?_)
  intro root hroot root' hroot' hne r hr hr'
  exact hne (hs.eq_of_climbsTo_roots hroot hroot' (h root hroot r hr) (h root' hroot' r hr'))

/-- What a step finds from nodes below all roots, it finds root by root. -/
theorem flatMap_reach_roots (hs : s.IsForest) {finds : Ref → List Ref}
    (h : ∀ root ∈ s.rootRefs, ∀ r ∈ finds root, s.ClimbsTo r root) (index : Option Position) :
    ((s.rootRefs.flatMap finds).map .node).flatMap (Area.reach ⟨s, s.rootRefs⟩ step index) =
      s.rootRefs.flatMap fun root =>
        ((finds root).map .node).flatMap (Area.reach ⟨s, [root]⟩ step index) := by
  rw [List.map_flatMap, List.flatMap_assoc]
  refine List.flatMap_congr fun root hroot => ?_
  rw [List.flatMap_map, List.flatMap_map]
  exact List.flatMap_congr fun r hr => reach_roots hs hroot (h root hroot r hr) index

/-- The further steps of a search of all roots, from finds that were made root by root. -/
theorem foldlM_next_roots (hs : s.IsForest) (strict : Bool) {rest : List Step}
    (hpath : ∀ step ∈ rest, step.WellFormed) (hindex : ∀ step ∈ rest, ∀ p, .index p ∉ step.filters)
    {finds : Ref → List Ref} (h : ∀ root ∈ s.rootRefs, ∀ r ∈ finds root, s.ClimbsTo r root) :
    ∃ finds' : Ref → List Ref,
      (∀ root ∈ s.rootRefs,
        rest.foldlM (Area.next ⟨s, [root]⟩ strict) (finds root) = .ok (finds' root)) ∧
      rest.foldlM (Area.next ⟨s, s.rootRefs⟩ strict) (s.rootRefs.flatMap finds) =
        .ok (s.rootRefs.flatMap finds') := by
  induction rest generalizing finds with
  | nil => exact ⟨finds, fun _ _ => rfl, rfl⟩
  | cons step rest ih =>
    obtain ⟨hstep, hrest⟩ := List.forall_mem_cons.mp hpath
    obtain ⟨hunindexed, hindices⟩ := List.forall_mem_cons.mp hindex
    let following : Ref → List Ref := fun root =>
      ((finds root).map .node).flatMap (Area.reach ⟨s, [root]⟩ step step.childIndex)
    have hbelow : ∀ root ∈ s.rootRefs, ∀ r ∈ following root, s.ClimbsTo r root := by
      intro root hroot r hr
      refine climbsTo_of_mem_reach_root hs hroot (fun origin horigin => ?_) hr
      obtain ⟨q, hq, rfl⟩ := List.mem_map.mp horigin
      exact Area.covers_singleton.mpr (h root hroot q hq)
    obtain ⟨finds', hone, hall⟩ := @ih hrest hindices (fun root => (following root).eraseDups)
      fun root hroot r hr => hbelow root hroot r (List.mem_eraseDups.mp hr)
    refine ⟨finds', fun root hroot => ?_, ?_⟩
    · rw [List.foldlM_cons, Area.next_of_unindexed hstep hunindexed]
      exact hone root hroot
    · rw [List.foldlM_cons, Area.next_of_unindexed hstep hunindexed, flatMap_reach_roots hs h,
        eraseDups_roots hs hbelow]
      exact hall

/-- **What a path finds in all roots is what it finds in each of them, in mount order**, if it was read,
no step has a bare index and the first step has no child index. -/
theorem find_everywhere (hs : s.IsForest) {text : String} {path : List Step}
    (hread : Path.parse text = .ok path)
    (hindex : ∀ step ∈ path, ∀ p, Filter.index p ∉ step.filters)
    (hfirst : ∀ step ∈ path.head?, step.childIndex = none) (strict : Bool) :
    ∃ finds : Ref → List Ref,
      (∀ root ∈ s.rootRefs, Area.find ⟨s, [root]⟩ strict path = .ok (finds root)) ∧
      Area.find ⟨s, s.rootRefs⟩ strict path = .ok (s.rootRefs.flatMap finds) := by
  obtain ⟨hne, hpath⟩ := wellFormed_of_parse hread
  obtain ⟨first, rest, rfl⟩ := List.exists_cons_of_ne_nil hne
  obtain ⟨hwell, hrest⟩ := List.forall_mem_cons.mp hpath
  obtain ⟨hunindexed, hindices⟩ := List.forall_mem_cons.mp hindex
  have hnone : first.childIndex = none := hfirst first rfl
  let finds : Ref → List Ref := fun root =>
    [Origin.above].flatMap (Area.reach ⟨s, [root]⟩ first none)
  have hbelow : ∀ root ∈ s.rootRefs, ∀ r ∈ finds root, s.ClimbsTo r root := by
    intro root hroot r hr
    exact climbsTo_of_mem_reach_root hs hroot (by simp [Area.Holds]) hr
  obtain ⟨finds', hone, hall⟩ := foldlM_next_roots hs strict hrest hindices
    fun root hroot r hr => hbelow root hroot r (List.mem_eraseDups.mp hr)
  refine ⟨finds', fun root hroot => ?_, ?_⟩
  · rw [Area.find, Area.follow_of_unindexed hwell hunindexed, hnone]
    exact hone root hroot
  · have hstart : [Origin.above].flatMap (Area.reach ⟨s, s.rootRefs⟩ first none) =
        s.rootRefs.flatMap finds := by
      simp only [List.flatMap_singleton, finds]
      exact reach_above_roots s first
    rw [Area.find, Area.follow_of_unindexed hwell hunindexed, hnone, hstart,
      eraseDups_roots hs hbelow]
    exact hall

/-- The last item of every list, in two roots with one list each. -/
theorem find_everywhere_last :
    let item := Snapshot.node { tag := some "li" } []
    let list := Snapshot.node { tag := some "ul" } [item, item]
    let s := (Scene.ofSnapshots [("main", list), ("side", list)]).toOption.getD {}
    let last : Step := { tag := some (.named "li"), childIndex := some (.last 0) }
    let path : List Step := [{ mode := .any, tag := some (.named "ul") }, last]
    s.IsForest ∧ Path.parse "~ul/li[:last()]" = .ok path ∧ s.rootRefs = [⟨0⟩, ⟨3⟩] ∧
      Area.find ⟨s, s.rootRefs⟩ true path = .ok [⟨2⟩, ⟨5⟩] ∧
      ∃ finds : Ref → List Ref,
        (∀ root ∈ s.rootRefs, Area.find ⟨s, [root]⟩ true path = .ok (finds root)) ∧
        Area.find ⟨s, s.rootRefs⟩ true path = .ok (s.rootRefs.flatMap finds) := by
  intro item list s last path
  have hs : s.IsForest := isForest_ofSnapshots _
  have hread : Path.parse "~ul/li[:last()]" = .ok path := by decide +kernel
  have hroots : s.rootRefs = [⟨0⟩, ⟨3⟩] := by decide +kernel
  have hfind : Area.find ⟨s, s.rootRefs⟩ true path = .ok [⟨2⟩, ⟨5⟩] := by decide +kernel
  have hindex : ∀ step ∈ path, ∀ p, Filter.index p ∉ step.filters := by simp [path, last]
  have hfirst : ∀ step ∈ path.head?, step.childIndex = none := by simp [path]
  exact ⟨hs, hread, hroots, hfind, find_everywhere hs hread hindex hfirst true⟩

end Scene

end SceneSelect
