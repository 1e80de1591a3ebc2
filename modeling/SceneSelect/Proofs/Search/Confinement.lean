import SceneSelect.Proofs.Scene.Edits
import SceneSelect.Proofs.Scene.Levels
import SceneSelect.Proofs.Search.Finds

/-!
# `Proofs/Search/Confinement.lean` — a search stays in its area

An area is what lies at or below its top nodes, `Covers`. Every move of a search is kept inside it:
going down stays below, and going up or sideways stops at a top node. The one move without such a
guard is that of a text filter, which goes from a node without an element to the nearest element above,
however far that is.

> **A search whose path has no text filter finds nothing outside its area, whatever the top nodes
> are. With text filters the same is true of an area that is `Sealed`**: the nearest element at or
> above each top node, if there is one, is inside (`search_confined`).

So a single top node is safe when it has an element itself or when nothing above it has one, and a root
always is (`sealed_of_root`). A node whose nearest element is above it is left as soon as the search asks for
a text that the node has (`search_text_at_node`).
-/

set_option autoImplicit false

namespace SceneSelect

open SceneSelect.Path

/-! ## Inside an area -/

namespace Area

variable {a : Area} {step : Step} {r p c found : Ref}

/-- The node is at or below a top node. -/
def Covers (a : Area) (r : Ref) : Prop := ∃ top ∈ a.tops, a.scene.ClimbsTo r top

/-- The nearest element at or above a top node is in the area. -/
def Sealed (a : Area) : Prop :=
  ∀ top ∈ a.tops, ∀ e, a.scene.elementAbove? top = some e → a.Covers e

theorem covers_singleton {s : Scene} {top : Ref} :
    Covers ⟨s, [top]⟩ r ↔ s.ClimbsTo r top := by
  simp [Covers]

theorem Covers.below (h : a.Covers r) (hc : a.scene.ClimbsTo c r) : a.Covers c := by
  obtain ⟨top, htop, hclimb⟩ := h
  exact ⟨top, htop, hc.trans hclimb⟩

theorem Covers.parent (h : a.Covers r) (htop : r ∉ a.tops) (hp : a.scene.parent? r = some p) :
    a.Covers p := by
  obtain ⟨top, hmem, hclimb⟩ := h
  have hne : r ≠ top := fun heq => htop (heq ▸ hmem)
  exact ⟨top, hmem, hclimb.parent_of_ne hne hp⟩

theorem Covers.elementAbove (ha : a.Sealed) (h : a.Covers r) {e : Ref}
    (he : a.scene.elementAbove? r = some e) : a.Covers e := by
  obtain ⟨top, htop, hclimb⟩ := h
  induction hclimb using Relation.ReflTransGen.head_induction_on with
  | refl => exact ha top htop e he
  | @head r p hp hclimb ih =>
    cases hr : a.scene.hasElement r with
    | true =>
      rw [Scene.elementAbove?, Scene.selfAndAncestors, List.find?_cons_of_pos hr] at he
      exact ⟨top, htop, Option.some.inj he ▸ .head hp hclimb⟩
    | false => exact ih (Scene.elementAbove?_parent hr hp he)

/-- Nothing that the step accepts leads out of the area. -/
def Keeps (a : Area) (step : Step) : Prop := step.isTextFree = true ∨ a.Sealed

theorem Covers.accept (h : a.Covers r) (hkeeps : a.Keeps step)
    (haccept : a.scene.accept? step r = some found) : a.Covers found := by
  rcases Scene.accept?_cases haccept with rfl | ⟨htext, habove⟩
  · exact h
  · exact h.elementAbove (hkeeps.resolve_left (by simp [htext])) habove

/-! ## The moves of a search -/

theorem Covers.firstAbove (hkeeps : a.Keeps step) (n : Nat) (h : a.Covers r) (htop : r ∉ a.tops)
    (hfound : a.firstAbove? step (a.scene.climb n r) = some found) : a.Covers found := by
  induction n generalizing r with
  | zero => exact absurd hfound (by simp [Scene.climb, firstAbove?])
  | succ n ih =>
    cases hp : a.scene.parent? r with
    | none =>
      rw [Scene.climb_of_root _ hp] at hfound
      exact absurd hfound (by simp [firstAbove?])
    | some p =>
      have hcovered := h.parent htop hp
      rw [Scene.climb_succ_of_parent _ hp, firstAbove?] at hfound
      split at hfound
      · rename_i haccept
        exact hcovered.accept hkeeps (haccept.trans hfound)
      · split at hfound
        · exact absurd hfound (by simp)
        · rename_i hmem
          exact ih hcovered hmem hfound

theorem Covers.ancestor (hkeeps : a.Keeps step) (h : a.Covers r)
    (hfound : a.ancestor? step r = some found) : a.Covers found := by
  rw [ancestor?] at hfound
  split at hfound
  · exact absurd hfound (by simp)
  · rename_i htop
    split at hfound
    · exact h.firstAbove hkeeps _ htop hfound
    · obtain ⟨p, hp, haccept⟩ := Option.bind_eq_some_iff.mp hfound
      exact (h.parent htop hp).accept hkeeps haccept

theorem Covers.sibling (ha : a.scene.IsForest) (hkeeps : a.Keeps step) (h : a.Covers r)
    (hfound : a.sibling? step r = some found) : a.Covers found := by
  obtain ⟨htop, p, hp, c, hc, haccept⟩ := exists_accept_of_sibling hfound
  exact ((h.parent htop hp).below (ha.climbsTo_of_child hc)).accept hkeeps haccept

/-- The starting point is above the area or inside it. -/
def Holds (a : Area) : Origin → Prop
  | .above => True
  | .node r => a.Covers r

theorem Holds.reach (ha : a.scene.IsForest) (hkeeps : a.Keeps step) {origin : Origin}
    {index : Option Position} (h : a.Holds origin) (hfound : found ∈ a.reach step index origin) :
    a.Covers found := by
  obtain ⟨child, hchild, c, hc, haccept⟩ | ⟨start, rfl, hancestor | hsibling⟩ := mem_reach hfound
  · have hcovered : a.Covers child := by
      cases origin with
      | above => exact ⟨child, hchild, .refl⟩
      | node r => exact Covers.below h (ha.climbsTo_of_child hchild)
    exact (hcovered.below (hc.climbsTo ha)).accept hkeeps haccept
  · exact Covers.ancestor hkeeps h hancestor
  · exact Covers.sibling ha hkeeps h hsibling

theorem covers_follow (ha : a.scene.IsForest) (hkeeps : a.Keeps step) {strict : Bool}
    {origins : List Origin} {kept : List Ref} (h : ∀ origin ∈ origins, a.Holds origin)
    (hfollow : a.follow strict origins step = .ok kept) : ∀ r ∈ kept, a.Covers r := by
  obtain ⟨index, -, hsub, -⟩ := follow_cases hfollow
  intro r hr
  obtain ⟨origin, horigin, hreach⟩ := List.mem_flatMap.mp (hsub.subset hr)
  exact (h origin horigin).reach ha hkeeps hreach

theorem covers_find (ha : a.scene.IsForest) {strict : Bool} {path : List Step} {kept : List Ref}
    (hkeeps : ∀ step ∈ path, a.Keeps step) (hfind : a.find strict path = .ok kept) :
    ∀ r ∈ kept, a.Covers r := by
  let P : List Step → List Origin → Prop := fun steps origins =>
    (∀ step ∈ steps, a.Keeps step) ∧ ∀ origin ∈ origins, a.Holds origin
  have hrun : P [] (kept.map .node) := by
    refine find_run (P := P) ?_ ?_ ⟨hkeeps, by simp [Holds]⟩ (fun _ => ⟨by simp, by simp⟩) hfind
    · exact fun steps h => ⟨fun step hmem => h.1 step (List.mem_of_mem_tail hmem), by simp⟩
    · intro step rest origins found ⟨hsteps, horigins⟩ hfollow
      obtain ⟨hstep, hrest⟩ := List.forall_mem_cons.mp hsteps
      have hcovered := covers_follow ha hstep horigins hfollow
      refine ⟨hrest, fun origin hmem => ?_⟩
      obtain ⟨r, hr, rfl⟩ := List.mem_map.mp hmem
      exact hcovered r hr
  exact fun r hr => hrun.2 (.node r) (List.mem_map_of_mem hr)

end Area

/-! ## Searches -/

namespace Scene

variable {s : Scene}

theorem eq_of_mem_tops_node {top t : Ref} (h : t ∈ Scope.tops s (.node top)) : t = top := by
  rw [Scope.tops] at h
  split at h
  · exact List.mem_singleton.mp h
  · exact absurd h List.not_mem_nil

theorem search_at_node (hs : s.IsForest) {path : List Step} {strict : Bool} {found : List Ref}
    {top : Ref} (hsafe : (∀ step ∈ path, step.isTextFree = true) ∨
      ∀ e, s.elementAbove? top = some e → e = top)
    (hsearch : s.search path (.node top) { element := .logical, strictIndex := strict } = .ok found) :
    ∀ r ∈ found, s.ClimbsTo r top := by
  have hkeeps : ∀ step ∈ path, Area.Keeps ⟨s, Scope.tops s (.node top)⟩ step := by
    intro step hstep
    refine hsafe.imp (fun hfree => hfree step hstep) fun habove t ht e he => ⟨t, ht, ?_⟩
    obtain rfl := eq_of_mem_tops_node ht
    exact habove e he ▸ .refl
  intro r hr
  obtain ⟨t, ht, hclimb⟩ := Area.covers_find hs hkeeps (search_logical_iff.mp hsearch) r hr
  exact eq_of_mem_tops_node ht ▸ hclimb

theorem mem_roots_of_key {key : String} {root : Ref} (h : s.root? key = some root) :
    root ∈ s.rootRefs :=
  List.mem_map.mpr ⟨(key, root), Json.mem_of_lookup_eq_some h, rfl⟩

theorem sealed_of_root (hs : s.IsForest) {root : Ref} (hroot : root ∈ s.rootRefs) :
    Area.Sealed ⟨s, [root]⟩ := by
  intro top htop e he
  obtain rfl := List.mem_singleton.mp htop
  have htopmost := ((hs.mem_roots top).mp hroot).2
  exact ⟨top, htop, elementAbove?_of_root htopmost he ▸ .refl⟩

/-- What a step finds below a root from starting points there stays there. -/
theorem climbsTo_of_mem_reach_root (hs : s.IsForest) {root : Ref} (hroot : root ∈ s.rootRefs)
    {step : Step} {index : Option Position} {origins : List Origin}
    (h : ∀ origin ∈ origins, Area.Holds ⟨s, [root]⟩ origin) {found : Ref}
    (hfound : found ∈ origins.flatMap (Area.reach ⟨s, [root]⟩ step index)) :
    s.ClimbsTo found root := by
  obtain ⟨origin, horigin, hreach⟩ := List.mem_flatMap.mp hfound
  have hcovered := (h origin horigin).reach hs (Or.inr (sealed_of_root hs hroot)) hreach
  exact Area.covers_singleton.mp hcovered

/-! ## Outside -/

/-- A step that asks for a text and nothing else goes from a top node with that text to the nearest
element, wherever this is. -/
theorem search_text_at_node {top e : Ref} {test : ValueTest} (strict : Bool)
    (hinner : (s.inner? top).isSome = true) (htext : s.hasTextBelow test s.levels top = true)
    (he : s.elementAbove? top = some e) :
    s.search [{ filters := [.text test] }] (.node top)
      { element := .logical, strictIndex := strict } = .ok [e] := by
  let step : Step := { filters := [.text test] }
  obtain ⟨node, hinner⟩ := Option.isSome_iff_exists.mp hinner
  obtain ⟨hnode, hnotText⟩ := Option.filter_eq_some_iff.mp hinner
  rw [Bool.not_eq_true'] at hnotText
  have hlive : s.contains top = true := contains_iff.mpr ⟨node, hnode⟩
  have hresolve : s.resolve? top (.text test) = some e := by
    rw [resolve?, hlive, htext, ← he]
    rfl
  have haccept : s.accept? step top = some e := by
    have hself : (if e = top then top else e) = e := by
      split
      · rename_i heq
        exact heq.symm
      · rfl
    simp [accept?, step, hnode, hnotText, passes, resolveAll?, hresolve, hself]
  have hbelow : s.exactBelow step s.levels [top] = [e] := by
    cases hlevels : s.levels with
    | zero =>
      rw [hlevels] at htext
      exact absurd htext (by simp [hasTextBelow])
    | succ n => simp [exactBelow, hinner, haccept]
  rw [search_logical_iff]
  have htops : Scope.tops s (.node top) = [top] := by
    rw [Scope.tops, if_pos hlive]
  have hdescend : Area.descend ⟨s, [top]⟩ step .above = [e] := hbelow
  have hreach : [Origin.above].flatMap (Area.reach ⟨s, [top]⟩ step none) = [e] := by
    simp [Area.reach, step, hdescend]
  rw [htops, Area.find]
  show (Area.follow ⟨s, [top]⟩ strict [.above] step >>= pure) = _
  rw [bind_pure, Area.follow]
  show Area.slice strict step ([Origin.above].flatMap (Area.reach ⟨s, [top]⟩ step none)).eraseDups = _
  rw [hreach]
  rfl

/-! ## Exactly when -/

/-- **Without text filters a search stays in its area, for any list of top nodes, and with them it does
so if the area is sealed; in particular it stays at or below the node it is given. And no more is
true: where the nearest element of that node is above it, a search for the text of the node finds
what is outside.** -/
theorem search_confined (hs : s.IsForest) (strict : Bool) :
    (∀ (path : List Step) (tops found : List Ref),
      (∀ step ∈ path, step.isTextFree = true) ∨ Area.Sealed ⟨s, tops⟩ →
      Area.find ⟨s, tops⟩ strict path = .ok found → ∀ r ∈ found, Area.Covers ⟨s, tops⟩ r) ∧
    (∀ (path : List Step) (top : Ref) (found : List Ref),
      (∀ step ∈ path, step.isTextFree = true) ∨ (∀ e, s.elementAbove? top = some e → e = top) →
      s.search path (.node top) { element := .logical, strictIndex := strict } = .ok found →
      ∀ r ∈ found, s.ClimbsTo r top) ∧
    ∀ (top e : Ref) (test : ValueTest), (s.inner? top).isSome = true →
      s.hasTextBelow test s.levels top = true → s.elementAbove? top = some e → e ≠ top →
      s.search [{ filters := [.text test] }] (.node top)
        { element := .logical, strictIndex := strict } = .ok [e] ∧ ¬s.ClimbsTo e top := by
  refine ⟨fun path tops found hsafe hfind => ?_, fun path top found => search_at_node hs, ?_⟩
  · refine Area.covers_find hs (fun step hstep => ?_) hfind
    exact hsafe.imp_left fun hfree => hfree step hstep
  · intro top e test hinner htext he hne
    refine ⟨search_text_at_node strict hinner htext he, fun hback => hne ?_⟩
    exact hs.climbsTo_antisymm hback (climbsTo_elementAbove he)

/-- In a panel with an element stands a label without one. A search of the panel is safe, and so is a
search of the label for what is not a text. -/
theorem search_confined_panel :
    let panel : Label := { tag := some "panel", element := some { handle := 1 } }
    let roots := [("main", Snapshot.node panel
      [.node { tag := some "label" } [.node { text := some "Save" } []]])]
    let s := (Scene.ofSnapshots roots).toOption.getD {}
    let save : Filter := .text ⟨.equal, "Save"⟩
    let label : Step := { tag := some (.named "label") }
    s.IsForest ∧
      (∃ found, Area.find ⟨s, [⟨0⟩]⟩ false [{ mode := .any, filters := [save] }] = .ok found ∧
        found = [⟨0⟩] ∧ ∀ r ∈ found, Area.Covers ⟨s, [⟨0⟩]⟩ r) ∧
      (∃ found, s.search [label] (.node ⟨1⟩) {} = .ok found ∧
        found = [⟨1⟩] ∧ ∀ r ∈ found, s.ClimbsTo r ⟨1⟩) ∧
      s.search [{ filters := [save] }] (.node ⟨1⟩) {} = .ok [⟨0⟩] ∧ ¬s.ClimbsTo ⟨0⟩ ⟨1⟩ := by
  intro panel roots s save label
  have hs : s.IsForest := isForest_ofSnapshots roots
  obtain ⟨hfind, hsearch, hleaves⟩ := search_confined hs false
  have habove : s.elementAbove? ⟨0⟩ = some ⟨0⟩ := by decide +kernel
  have hsealed : Area.Sealed ⟨s, [⟨0⟩]⟩ := by
    intro top htop e he
    obtain rfl := List.mem_singleton.mp htop
    obtain rfl := Option.some.inj (habove.symm.trans he)
    exact ⟨⟨0⟩, htop, .refl⟩
  have hpanel : Area.find ⟨s, [⟨0⟩]⟩ false [{ mode := .any, filters := [save] }] = .ok [⟨0⟩] := by
    decide +kernel
  have hlabel : s.search [label] (.node ⟨1⟩) {} = .ok [⟨1⟩] := by decide +kernel
  have hfree : ∀ step ∈ [label], step.isTextFree = true := by decide
  refine ⟨hs, ⟨_, hpanel, rfl, hfind _ _ _ (Or.inr hsealed) hpanel⟩,
    ⟨_, hlabel, rfl, hsearch _ _ _ (Or.inl hfree) hlabel⟩, ?_⟩
  exact hleaves ⟨1⟩ ⟨0⟩ ⟨.equal, "Save"⟩ (by decide +kernel) (by decide +kernel)
    (by decide +kernel) (by decide)

/-- A search of the label for its text finds the panel around it. -/
theorem search_leaves_label :
    let panel : Label := { tag := some "panel", element := some { handle := 1 } }
    let roots := [("main", Snapshot.node panel
      [.node { tag := some "label" } [.node { text := some "Save" } []]])]
    let s := (Scene.ofSnapshots roots).toOption.getD {}
    let path : List Step := [{ tag := some (.named "label"), filters := [.text ⟨.equal, "Save"⟩] }]
    s.IsForest ∧ s.contains ⟨1⟩ = true ∧
      Path.parse "label[text=Save]" = .ok path ∧
      s.search path (.node ⟨1⟩) {} = .ok [⟨0⟩] ∧ ¬s.ClimbsTo ⟨0⟩ ⟨1⟩ := by
  intro panel roots s path
  have hs : s.IsForest := isForest_ofSnapshots roots
  have hread : Path.parse "label[text=Save]" = .ok path := by decide +kernel
  have hfound : s.search path (.node ⟨1⟩) {} = .ok [⟨0⟩] := by decide +kernel
  refine ⟨hs, by decide +kernel, hread, hfound, fun hclimb => ?_⟩
  have hroot : s.parent? ⟨0⟩ = none := by decide +kernel
  obtain heq | ⟨p, hp, -⟩ := Relation.ReflTransGen.cases_head hclimb
  · exact absurd heq (by decide)
  · exact absurd (hroot.symm.trans hp) (by simp)

end Scene

end SceneSelect
