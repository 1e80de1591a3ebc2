import SceneSelect.Proofs.Scene.Leaves
import SceneSelect.Proofs.Search.Elements

/-!
# `Proofs/Search/Inner.lean` — the finds of a search are structured nodes

A step accepts structured nodes only, but what it finds need not be a node that it accepts: a text filter
gives the nearest element above instead. Nothing in the search asks whether that one is structured. It is
because something is below it, so this rests on text leaves having no children, which is a matter of how
the scene was made (`Tidy`).

> **In a scene that comes from snapshots and grows below structured nodes, the finds of every path from
> every list of top nodes are live, none is a text leaf, and none is there twice** (`find_inner`).

Where text leaves do have something below them, it matters where the search starts: no descent goes down from
a text leaf, so a search from the roots never comes to what is below one (`isOpen_find`).
-/

set_option autoImplicit false

namespace SceneSelect

open SceneSelect.Path

namespace Scene

variable {s : Scene} {step : Step} {c r : Ref}

/-- What has something below it is structured. -/
theorem Tidy.isInner_above (h : s.Tidy) (hc : s.IsInner c) (hr : s.ClimbsTo c r) : s.IsInner r := by
  rcases Relation.ReflTransGen.cases_tail hr with rfl | ⟨d, -, hparent⟩
  · exact hc
  · exact h.bare.isInner (h.linked.listed hparent)

theorem Tidy.isInner_of_accept (h : s.Tidy) (haccept : s.accept? step c = some r) : s.IsInner r := by
  have hc : s.IsInner c := accept?_inner haccept
  rcases accept?_cases haccept with rfl | ⟨-, habove⟩
  · exact hc
  · exact h.isInner_above hc (climbsTo_elementAbove habove)

end Scene

namespace Area

variable {strict : Bool} {path : List Step} {found : List Ref}

theorem isInner_find {a : Area} (ha : a.scene.Tidy) (hfind : a.find strict path = .ok found) :
    ∀ r ∈ found, a.scene.IsInner r := by
  intro r hr
  cases hlast : path.getLast? with
  | none =>
    rw [List.getLast?_eq_none_iff] at hlast
    subst hlast
    obtain rfl := Except.ok.inj hfind
    exact absurd hr List.not_mem_nil
  | some last =>
    obtain ⟨c, haccept⟩ := exists_accept_of_find hlast hfind r hr
    exact ha.isInner_of_accept haccept

/-- **The finds of a path are live nodes and no text leaves, and none is found twice**, whatever the top
nodes: some may be gone, listed twice, or below others. -/
theorem find_inner {roots : List (String × Snapshot)} {start : Scene} {edits : List Edit}
    {tops : List Ref} (hstart : Scene.ofSnapshots roots = .ok start)
    (hedits : start.GraftsOnly edits)
    (hfind : Area.find ⟨start.editAll edits, tops⟩ strict path = .ok found) :
    (∀ r ∈ found, (start.editAll edits).contains r = true ∧ ¬(start.editAll edits).IsText r) ∧
      found.Nodup := by
  have htidy := Scene.tidy_editAll (Scene.Tidy.ofSnapshots hstart) hedits
  have hinner := isInner_find (a := ⟨start.editAll edits, tops⟩) htidy hfind
  refine ⟨fun r hr => ⟨(hinner r hr).contains, (hinner r hr).not_isText⟩, ?_⟩
  exact (live_nodup_find (a := ⟨start.editAll edits, tops⟩) hfind).2

/-- A panel with an element and two labels with a text, the second of them put below a wrapper later. The
labels are below two top nodes, of which one is listed twice, and a third is not there. -/
theorem find_inner_panel :
    let panel : Label := { tag := some "panel", element := some {} }
    let label := Snapshot.node { tag := some "label" } [.node { text := some "Save" } []]
    let roots := [("main", Snapshot.node panel [label, .node {} []])]
    let edits : List Edit := [.mountRoot "side" {}, .appendSnapshot ⟨3⟩ label, .remove ⟨9⟩]
    let start := (Scene.ofSnapshots roots).toOption.getD {}
    let s := start.editAll edits
    let step : Step := { mode := .any, tag := some (.named "label"), filters := [.text ⟨.equal, "Save"⟩] }
    let found : List Ref := [⟨0⟩]
    Scene.ofSnapshots roots = .ok start ∧ start.GraftsOnly edits ∧
      Area.find ⟨s, [⟨3⟩, ⟨0⟩, ⟨3⟩, ⟨9⟩]⟩ true [step] = .ok found ∧
      (∀ r ∈ found, s.contains r = true ∧ ¬s.IsText r) ∧ found.Nodup := by
  intro panel label roots edits start s step found
  have hbuilds : (Scene.ofSnapshots roots).toOption.isSome = true := by decide +kernel
  have hstart : Scene.ofSnapshots roots = .ok start := eq_ok_getD hbuilds {}
  have hedits : start.GraftsOnly edits := by decide +kernel
  have hfind : Area.find ⟨s, [⟨3⟩, ⟨0⟩, ⟨3⟩, ⟨9⟩]⟩ true [step] = .ok found := by decide +kernel
  -- from here on it does not matter how the scene was made
  clear_value start
  exact ⟨hstart, hedits, hfind, find_inner hstart hedits hfind⟩

/-- Below a text leaf with an element a search would find the leaf. -/
example :
    let note : Label := { text := some "note", element := some {} }
    let label := Snapshot.node { tag := some "label" } [.node { text := some "Save" } []]
    let s := (Scene.mountRoot {} "main" note).2.editAll [.appendSnapshot ⟨0⟩ label]
    let step : Step := { mode := .any, tag := some (.named "label"), filters := [.text ⟨.equal, "Save"⟩] }
    s.IsText ⟨0⟩ ∧ Area.find ⟨s, [⟨1⟩]⟩ true [step] = .ok [⟨0⟩] := by
  decide +kernel

end Area

/-! ## Text leaves with something below them -/

namespace Scene

variable {s : Scene} {step : Step} {r p c found : Ref}

/-- The node and all nodes above it are structured. -/
def IsOpen (s : Scene) (r : Ref) : Prop := ∀ p, s.ClimbsTo r p → s.IsInner p

namespace IsOpen

theorem isInner (h : s.IsOpen r) : s.IsInner r := h r .refl

theorem above (h : s.IsOpen r) (hp : s.ClimbsTo r p) : s.IsOpen p := fun q hq => h q (hp.trans hq)

theorem of_parent (h : s.IsOpen p) (hp : s.parent? r = some p) (hr : s.IsInner r) : s.IsOpen r := by
  intro q hq
  obtain rfl | ⟨p', hp', hclimb⟩ := Relation.ReflTransGen.cases_head hq
  · exact hr
  · obtain rfl := Option.some.inj (hp.symm.trans hp')
    exact h q hclimb

theorem of_root (hroot : s.parent? r = none) (hr : s.IsInner r) : s.IsOpen r := by
  intro q hq
  obtain rfl | ⟨p, hp, -⟩ := Relation.ReflTransGen.cases_head hq
  · exact hr
  · exact absurd (hroot.symm.trans hp) (by simp)

/-- What is found for an open node is that node or one above it. -/
theorem accept (h : s.IsOpen r) (haccept : s.accept? step r = some found) : s.IsOpen found := by
  rcases accept?_cases haccept with rfl | ⟨-, habove⟩
  · exact h
  · exact h.above (climbsTo_elementAbove habove)

/-- The structured children of an open node are open. -/
theorem children (h : s.IsOpen p) (hs : s.IsForest) :
    ∀ c ∈ s.children p, s.IsInner c → s.IsOpen c :=
  fun c hc hinner => h.of_parent (hs.children_live p c hc).2 hinner

end IsOpen

/-- Going down, only a text leaf leads away from the open nodes. -/
theorem DescendsTo.isOpen (hs : s.IsForest) (hr : s.IsInner r → s.IsOpen r) (h : s.DescendsTo r c)
    (hc : s.IsInner c) : s.IsOpen c := by
  induction h with
  | refl => exact hr hc
  | tail _ hchild ih => exact (ih hchild.1).children hs _ hchild.2 hc

end Scene

namespace Area

variable {a : Area} {step : Step} {r found : Ref} {origin : Origin}

/-- No structured top node is below a text leaf. -/
def IsOpen (a : Area) : Prop := ∀ top ∈ a.tops, a.scene.IsInner top → a.scene.IsOpen top

theorem isOpen_roots {s : Scene} (hs : s.IsForest) : IsOpen ⟨s, s.rootRefs⟩ :=
  fun root hroot hinner => .of_root ((hs.mem_roots root).mp hroot).2 hinner

/-- The starting point is above the area, or an open node. -/
def Starts (a : Area) : Origin → Prop
  | .above => True
  | .node r => a.scene.IsOpen r

theorem Starts.reach (ha : a.scene.IsForest) (hopen : a.IsOpen) {index : Option Position}
    (h : a.Starts origin) (hfound : found ∈ a.reach step index origin) : a.scene.IsOpen found := by
  obtain ⟨child, hchild, c, hc, haccept⟩ | ⟨start, rfl, hancestor | hsibling⟩ := mem_reach hfound
  · have hstart : a.scene.IsInner child → a.scene.IsOpen child := by
      cases origin with
      | above => exact hopen child hchild
      | node r => exact Scene.IsOpen.children h ha child hchild
    exact (hc.isOpen ha hstart (Scene.accept?_inner haccept)).accept haccept
  · obtain ⟨c, hc, haccept⟩ := exists_accept_of_ancestor hancestor
    exact (Scene.IsOpen.above h hc).accept haccept
  · obtain ⟨-, p, hp, c, hc, haccept⟩ := exists_accept_of_sibling hsibling
    have hparent : a.scene.IsOpen p := Scene.IsOpen.above h (.single hp)
    exact (hparent.children ha c hc (Scene.accept?_inner haccept)).accept haccept

/-- **In any forest, a search that starts at open nodes finds open nodes**, so nothing that is a text leaf
or below one, whatever was put there. -/
theorem isOpen_find (ha : a.scene.IsForest) (hopen : a.IsOpen) {strict : Bool} {path : List Step}
    {kept : List Ref} (hfind : a.find strict path = .ok kept) : ∀ r ∈ kept, a.scene.IsOpen r := by
  have hrun : ∀ origin ∈ kept.map Origin.node, a.Starts origin := by
    refine find_run (P := fun _ origins => ∀ origin ∈ origins, a.Starts origin) (fun _ h => h) ?_
      (by simp [Starts]) (by simp) hfind
    intro step rest origins found horigins hfollow origin hmem
    obtain ⟨r, hr, rfl⟩ := List.mem_map.mp hmem
    obtain ⟨index, -, hsub, -⟩ := follow_cases hfollow
    obtain ⟨origin, horigin, hreach⟩ := List.mem_flatMap.mp (hsub.subset hr)
    exact (horigins origin horigin).reach ha hopen hreach
  exact fun r hr => hrun (.node r) (List.mem_map_of_mem hr)

end Area

end SceneSelect
