import SceneSelect.Proofs.Scene.Edits
import SceneSelect.Proofs.Search.Finds

/-!
# `Proofs/Search/Order.lean` — the order of the finds

A downward step finds, from one starting point, in pre-order. From several it finds what the first
leads to, then what the second leads to, and so on, and this is in order only if the starting points
are: in pre-order, and none above another, since what is below both would otherwise come too early
or too late. `Spread` says how the nodes that a search stands at lie, and `Spread.after` how they lie
after a step:

* an exact step finds nodes apart from each other, when it starts from such;
* a step into the whole subtree finds nodes in order that may be above each other, and nothing is
  known of what a further step finds from these;
* a step up or sideways mixes the nodes up, unless there is only one;
* a bare index leaves one node at most, so that all is in order again.

> **The finds of a path that `Spread.after` can follow are in pre-order** (`search_in_order`), as long
> as no text filter puts an element above in the place of a node.

A path that it cannot follow may find nodes out of order, with two steps already
(`search_out_of_order`).
-/

set_option autoImplicit false

namespace SceneSelect

open SceneSelect.Path

/-! ## One descent -/

namespace Scene

variable {s : Scene} {step : Step} {n : Nat} {rs : List Ref}

theorem climbsTo_of_mem_exactBelow (hs : s.IsForest) (hsteady : s.Steady step) {r : Ref}
    (h : r ∈ s.exactBelow step n rs) : ∃ start ∈ rs, s.ClimbsTo r start := by
  obtain ⟨start, hstart, c, hc, haccept⟩ := mem_exactBelow h
  exact ⟨start, hstart, hsteady c r haccept ▸ hc.climbsTo hs⟩

theorem climbsTo_of_mem_anyBelow (hs : s.IsForest) (hsteady : s.Steady step) {r : Ref}
    (h : r ∈ s.anyBelow step n rs) : ∃ start ∈ rs, s.ClimbsTo r start := by
  obtain ⟨start, hstart, c, hc, haccept⟩ := mem_anyBelow h
  exact ⟨start, hstart, hsteady c r haccept ▸ hc.climbsTo hs⟩

theorem pairwise_exactBelow (hs : s.IsForest) (hsteady : s.Steady step)
    (h : rs.Pairwise s.Before) : (s.exactBelow step n rs).Pairwise s.Before := by
  induction n generalizing rs with
  | zero => exact List.Pairwise.nil
  | succ n ih =>
    have below : ∀ a x, x ∈ s.exactBelow step (n + 1) [a] → s.ClimbsTo x a := by
      intro a x hx
      obtain ⟨start, hstart, hclimb⟩ := climbsTo_of_mem_exactBelow hs hsteady hx
      exact List.mem_singleton.mp hstart ▸ hclimb
    simp only [exactBelow, List.flatMap_singleton] at below
    rw [exactBelow, List.pairwise_flatMap]
    refine ⟨fun r hr => ?_, h.imp fun hab x hx y hy => hab.below (below _ x hx) (below _ y hy)⟩
    split
    · exact List.Pairwise.nil
    · rename_i node hnode
      split
      · exact List.pairwise_singleton _ _
      · split
        · rw [← children_of_node (node?_of_inner? hnode)]
          exact ih (s.pairwise_children r)
        · exact List.Pairwise.nil

theorem pairwise_anyBelow (hs : s.IsForest) (hsteady : s.Steady step)
    (h : rs.Pairwise s.Before) : (s.anyBelow step n rs).Pairwise s.Precedes := by
  induction n generalizing rs with
  | zero => exact List.Pairwise.nil
  | succ n ih =>
    have below : ∀ a x, x ∈ s.anyBelow step (n + 1) [a] → s.ClimbsTo x a := by
      intro a x hx
      obtain ⟨start, hstart, hclimb⟩ := climbsTo_of_mem_anyBelow hs hsteady hx
      exact List.mem_singleton.mp hstart ▸ hclimb
    simp only [anyBelow, List.flatMap_singleton] at below
    rw [anyBelow, List.pairwise_flatMap]
    refine ⟨fun r hr => ?_,
      h.imp fun hab x hx y hy => Or.inr (hab.below (below _ x hx) (below _ y hy))⟩
    split
    · exact List.Pairwise.nil
    · rename_i node hnode
      have hchildren := children_of_node (node?_of_inner? hnode)
      rw [← hchildren]
      split
      · rename_i found haccept
        obtain rfl := hsteady r found haccept
        refine List.pairwise_cons.mpr ⟨fun x hx => ?_, ?_⟩
        · obtain ⟨child, hchild, hclimb⟩ := climbsTo_of_mem_exactBelow hs hsteady hx
          have hparent := (hs.children_live _ _ hchild).2
          refine Or.inl ⟨?_, hclimb.tail hparent⟩
          rintro rfl
          exact hs.acyclic hparent hclimb
        · exact (pairwise_exactBelow hs hsteady (s.pairwise_children _)).imp Or.inr
      · exact ih (s.pairwise_children r)

end Scene

/-! ## One step -/

/-- How the nodes lie that a search stands at. -/
inductive Spread where
  /-- there is one at most -/
  | lone
  /-- they are in pre-order and none is above another -/
  | apart
  /-- they are in pre-order -/
  | nested
deriving DecidableEq

/-- Does the step go up or sideways? -/
def Path.Step.turns (step : Step) : Bool := step.sibling != 0 || step.mode == .ancestor

/-- How the finds of a step lie, where the lie of its starting points is enough to tell. -/
def Spread.after (spread : Spread) (step : Step) : Option Spread :=
  if step.soleIndex?.isSome then some .lone
  else if step.turns then if spread = .lone then some .lone else none
  else if spread = .nested then none
  else if step.childIndices ≠ [] then some spread
  else if step.mode = .exact then some .apart
  else some .nested

/-- Can the lie of the finds be told step by step, to the end of the path? -/
def Spread.follows : Spread → List Step → Bool
  | _, [] => true
  | spread, step :: rest => (spread.after step).any fun result => result.follows rest

theorem Spread.follows_cons {spread : Spread} {step : Step} {rest : List Step} :
    spread.follows (step :: rest) = true ↔
      ∃ result, spread.after step = some result ∧ result.follows rest = true := by
  rw [follows, Option.any_eq_true]

/-- A relation of nodes, for starting points that are nodes. -/
def Origin.Rel (R : Ref → Ref → Prop) : Origin → Origin → Prop
  | .node a, .node b => R a b
  | _, _ => False

/-- The starting points lie as described. -/
def Spread.Fits (s : Scene) : Spread → List Origin → Prop
  | .lone, origins => origins.length ≤ 1
  | .apart, origins => origins.Pairwise (Origin.Rel s.Before)
  | .nested, origins => origins.Pairwise (Origin.Rel s.Precedes)

theorem pairwise_of_length_le {α : Type} {R : α → α → Prop} {l : List α} (h : l.length ≤ 1) :
    l.Pairwise R := by
  match l, h with
  | [], _ => exact List.Pairwise.nil
  | [a], _ => exact List.pairwise_singleton R a

namespace Spread

variable {s : Scene} {found : List Ref}

theorem fits_apart : Fits s .apart (found.map .node) ↔ found.Pairwise s.Before :=
  List.pairwise_map

theorem fits_nested : Fits s .nested (found.map .node) ↔ found.Pairwise s.Precedes :=
  List.pairwise_map

theorem Fits.apart {spread : Spread} {origins : List Origin} (h : Fits s spread origins)
    (hne : spread ≠ .nested) : Fits s .apart origins := by
  cases spread with
  | lone => exact pairwise_of_length_le h
  | apart => exact h
  | nested => exact absurd rfl hne

theorem Fits.sublist {spread : Spread} {kept : List Ref} (h : Fits s spread (found.map .node))
    (hsub : kept.Sublist found) : Fits s spread (kept.map .node) := by
  have hmap := hsub.map Origin.node
  cases spread with
  | lone => exact Nat.le_trans hmap.length_le h
  | apart => exact List.Pairwise.sublist hmap h
  | nested => exact List.Pairwise.sublist hmap h

theorem Fits.in_order {spread : Spread} (h : Fits s spread (found.map .node)) :
    found.Pairwise s.Precedes := by
  cases spread with
  | lone => exact pairwise_of_length_le (List.length_map .. ▸ h)
  | apart => exact (fits_apart.mp h).imp Or.inr
  | nested => exact fits_nested.mp h

end Spread

namespace Area

variable {a : Area} {step : Step} {index : Option Position} {origin : Origin}

/-- The top nodes stand side by side. -/
def Level (a : Area) : Prop := a.tops.Pairwise a.scene.Before

theorem pairwise_origin (ha : a.Level) (origin : Origin) :
    (a.children origin).Pairwise a.scene.Before := by
  cases origin with
  | above => exact ha
  | node r => exact a.scene.pairwise_children r

/-- A step up or sideways, and one with a child index, finds one node at most from each of its starting
points. -/
theorem length_reach_le (h : step.turns = true ∨ index ≠ none) (origin : Origin) :
    (a.reach step index origin).length ≤ 1 := by
  unfold reach
  split
  · rename_i hsibling
    split
    · exact Position.length_pick_le _ _
    · have hmode : step.mode = .ancestor := by
        simpa [Step.turns, hsibling] using h
      unfold descend
      rw [hmode]
      cases origin with
      | above => exact Nat.zero_le 1
      | node r => exact Option.length_toList_le
  · cases origin with
    | above => exact Nat.zero_le 1
    | node r => exact Option.length_toList_le

theorem reach_sublist (hturns : step.turns = false) (origin : Origin) :
    (a.reach step index origin).Sublist (a.descend step origin) := by
  have hsibling : step.sibling = 0 := by
    simp only [Step.turns, Bool.or_eq_false_iff, bne_eq_false_iff_eq] at hturns
    exact hturns.1
  unfold reach
  rw [if_pos hsibling]
  cases index with
  | none => exact List.Sublist.refl _
  | some p => exact p.pick_sublist _

theorem mode_ne_ancestor (hturns : step.turns = false) : step.mode ≠ .ancestor := by
  rintro hmode
  simp [Step.turns, hmode] at hturns

theorem climbsTo_of_mem_reach (ha : a.scene.IsForest) (hsteady : a.scene.Steady step)
    (hturns : step.turns = false) {start r : Ref} (h : r ∈ a.reach step index (.node start)) :
    a.scene.ClimbsTo r start := by
  have hdescend := (reach_sublist hturns _).subset h
  obtain ⟨child, hchild, c, hc, haccept⟩ := mem_descend (mode_ne_ancestor hturns) hdescend
  exact hsteady c r haccept ▸ (hc.climbsTo ha).trans (ha.climbsTo_of_child hchild)

/-- From starting points apart from each other the finds are in order if those of each one are. -/
theorem pairwise_flatMap_reach (ha : a.scene.IsForest) (hsteady : a.scene.Steady step)
    (hturns : step.turns = false) {R : Ref → Ref → Prop} (hR : ∀ x y, a.scene.Before x y → R x y)
    {origins : List Origin} (h : Spread.Fits a.scene .apart origins)
    (hone : ∀ origin, (a.reach step index origin).Pairwise R) :
    (origins.flatMap (a.reach step index)).Pairwise R := by
  rw [List.pairwise_flatMap]
  refine ⟨fun origin _ => hone origin, List.Pairwise.imp ?_ h⟩
  intro first second hrel x hx y hy
  match first, second, hrel with
  | .node b, .node c, hrel =>
    exact hR x y (hrel.below (climbsTo_of_mem_reach ha hsteady hturns hx)
      (climbsTo_of_mem_reach ha hsteady hturns hy))

theorem length_flatMap_le {origins : List Origin} (h : Spread.Fits a.scene .lone origins)
    {f : Origin → List Ref} (hf : ∀ origin, (f origin).length ≤ 1) :
    (origins.flatMap f).length ≤ 1 := by
  match origins, h with
  | [], _ => exact Nat.zero_le 1
  | [origin], _ => simpa using hf origin

theorem index_of_childIndices (h : childIndex step = .ok index) (hne : step.childIndices ≠ []) :
    index ≠ none := by
  unfold childIndex at h
  split at h
  · rename_i hnil
    exact absurd hnil hne
  · obtain rfl := Except.ok.inj h
    simp
  · exact absurd h (by simp)

theorem fits_lone {spread : Spread} {found : List Ref} (h : found.length ≤ 1) :
    spread.Fits a.scene (found.map .node) := by
  have hmap : (found.map Origin.node).length ≤ 1 := Nat.le_trans (Nat.le_of_eq (List.length_map ..)) h
  cases spread with
  | lone => exact hmap
  | apart => exact pairwise_of_length_le hmap
  | nested => exact pairwise_of_length_le hmap

theorem fits_indexed (ha : a.scene.IsForest) (hsteady : a.scene.Steady step)
    (hturns : step.turns = false) (hindex : index ≠ none) {spread : Spread} {origins : List Origin}
    (h : spread.Fits a.scene origins) (hne : spread ≠ .nested) :
    spread.Fits a.scene ((origins.flatMap (a.reach step index)).map .node) := by
  have hone (origin : Origin) : (a.reach step index origin).length ≤ 1 :=
    length_reach_le (.inr hindex) origin
  cases spread with
  | lone => exact fits_lone (length_flatMap_le h hone)
  | apart =>
    exact Spread.fits_apart.mpr (pairwise_flatMap_reach ha hsteady hturns (fun _ _ => id) h
      fun origin => pairwise_of_length_le (hone origin))
  | nested => exact absurd rfl hne

theorem pairwise_reach_exact (ha : a.scene.IsForest) (hlevel : a.Level)
    (hsteady : a.scene.Steady step) (hturns : step.turns = false) (hmode : step.mode = .exact)
    (origin : Origin) : (a.reach step index origin).Pairwise a.scene.Before := by
  refine List.Pairwise.sublist (reach_sublist hturns origin) ?_
  unfold descend
  rw [hmode]
  exact Scene.pairwise_exactBelow ha hsteady (pairwise_origin hlevel origin)

theorem pairwise_reach_any (ha : a.scene.IsForest) (hlevel : a.Level)
    (hsteady : a.scene.Steady step) (hturns : step.turns = false) (hmode : step.mode = .any)
    (origin : Origin) : (a.reach step index origin).Pairwise a.scene.Precedes := by
  refine List.Pairwise.sublist (reach_sublist hturns origin) ?_
  unfold descend
  rw [hmode]
  exact Scene.pairwise_anyBelow ha hsteady (pairwise_origin hlevel origin)

/-- `Spread.after` is right about the finds of a step. -/
theorem fits_follow (ha : a.scene.IsForest) (hlevel : a.Level) (hsteady : a.scene.Steady step)
    {strict : Bool} {spread result : Spread} {origins : List Origin} {kept : List Ref}
    (h : spread.Fits a.scene origins) (hafter : spread.after step = some result)
    (hfollow : a.follow strict origins step = .ok kept) :
    result.Fits a.scene (kept.map .node) := by
  obtain ⟨index, hindex, hsub, hlen⟩ := follow_cases hfollow
  unfold Spread.after at hafter
  split at hafter
  · rename_i hsole
    exact fits_lone (hlen hsole)
  suffices hall : result.Fits a.scene ((origins.flatMap (a.reach step index)).map .node) from
    hall.sublist hsub
  split at hafter
  · rename_i hturns
    split at hafter
    · rename_i hlone
      subst hlone
      exact fits_lone (length_flatMap_le h (length_reach_le (Or.inl hturns)))
    · exact absurd hafter (by simp)
  rename_i hturns
  rw [Bool.not_eq_true] at hturns
  split at hafter
  · exact absurd hafter (by simp)
  rename_i hne
  split at hafter
  · rename_i hindices
    obtain rfl := Option.some.inj hafter
    exact fits_indexed ha hsteady hturns (index_of_childIndices hindex hindices) h hne
  split at hafter
  · rename_i hmode
    obtain rfl := Option.some.inj hafter
    exact Spread.fits_apart.mpr (pairwise_flatMap_reach ha hsteady hturns (fun _ _ => id)
      (h.apart hne) (pairwise_reach_exact ha hlevel hsteady hturns hmode))
  · rename_i hmode
    obtain rfl := Option.some.inj hafter
    have hany : step.mode = .any := by
      cases hm : step.mode with
      | exact => exact absurd hm hmode
      | any => rfl
      | ancestor => exact absurd hm (mode_ne_ancestor hturns)
    exact Spread.fits_nested.mpr (pairwise_flatMap_reach ha hsteady hturns (fun _ _ => Or.inr)
      (h.apart hne) (pairwise_reach_any ha hlevel hsteady hturns hany))

end Area

/-! ## Searches -/

namespace Scene

variable {s : Scene}

theorem level_tops (s : Scene) (scope : Scope) : Area.Level ⟨s, scope.tops s⟩ := by
  cases scope with
  | everywhere => exact s.pairwise_roots
  | root key => exact pairwise_of_length_le Option.length_toList_le
  | node r =>
    refine pairwise_of_length_le ?_
    show (Scope.tops s (.node r)).length ≤ 1
    rw [Scope.tops]
    split
    · exact Nat.le_refl 1
    · exact Nat.zero_le 1

/-- **The finds of a search are in pre-order, if their lie can be told step by step and no text filter
puts a node in the place of another.** -/
theorem search_in_order (hs : s.IsForest) {path : List Step} (hpath : Spread.lone.follows path = true)
    (hsteady : ∀ step ∈ path, s.Steady step) {scope : Scope} {strict : Bool} {found : List Ref}
    (hsearch : s.search path scope { element := .logical, strictIndex := strict } = .ok found) :
    found.Pairwise s.Precedes := by
  let P : List Step → List Origin → Prop := fun steps origins =>
    (∀ step ∈ steps, s.Steady step) ∧
      ∃ spread, Spread.Fits s spread origins ∧ spread.follows steps = true
  have hnothing : ∀ spread : Spread, spread.Fits s [] := fun spread => by
    cases spread with
    | lone => exact Nat.zero_le 1
    | apart => exact .nil
    | nested => exact .nil
  obtain ⟨-, spread, hfits, -⟩ : P [] (found.map .node) := by
    refine Area.find_run (P := P) ?_ ?_ ⟨hsteady, .lone, Nat.le_refl 1, hpath⟩ ?_
      (search_logical_iff.mp hsearch)
    · rintro steps ⟨hsteps, spread, -, hfollows⟩
      cases steps with
      | nil => exact ⟨hsteps, spread, hnothing spread, hfollows⟩
      | cons step rest =>
        obtain ⟨result, -, hrest⟩ := Spread.follows_cons.mp hfollows
        exact ⟨(List.forall_mem_cons.mp hsteps).2, result, hnothing result, hrest⟩
    · rintro step rest origins kept ⟨hsteps, spread, hfits, hfollows⟩ hkept
      obtain ⟨hstep, hsteps⟩ := List.forall_mem_cons.mp hsteps
      obtain ⟨result, hafter, hrest⟩ := Spread.follows_cons.mp hfollows
      exact ⟨hsteps, result,
        Area.fits_follow hs (s.level_tops scope) hstep hfits hafter hkept, hrest⟩
    · exact fun _ => ⟨by simp, .lone, hnothing .lone, rfl⟩
  exact hfits.in_order

/-- Two rows, with a row and its text in each. -/
theorem search_in_order_rows :
    let row : Label := { tag := some "row", element := some {} }
    let outer := Snapshot.node row [.node row [.node { text := some "a" } []]]
    let roots := [("main", Snapshot.node row [outer, outer])]
    let s := (Scene.ofSnapshots roots).toOption.getD {}
    let path : List Step := [{ tag := some .any }, { tag := some .any },
      { mode := .any, filters := [.text ⟨.equal, "a"⟩] }]
    s.IsForest ∧ Spread.lone.follows path = true ∧ (∀ step ∈ path, s.Steady step) ∧
      s.search path .everywhere {} = .ok [⟨2⟩, ⟨5⟩] ∧ [(⟨2⟩ : Ref), ⟨5⟩].Pairwise s.Precedes := by
  intro row outer roots s path
  have hs : s.IsForest := isForest_ofSnapshots roots
  have hpath : Spread.lone.follows path = true := by decide
  have hall : (s.nodes.toList.all fun e => e.2.isText || !e.2.isVirtual) = true := by
    decide +kernel
  have hsteady : ∀ step ∈ path, s.Steady step := by
    refine fun step _ => steady_of_elements (fun r node hnode hinner => ?_) step
    have helement := List.all_eq_true.mp hall (r, node) (Arena.mem_toList.mpr hnode)
    simpa [hinner] using helement
  have hsearch : s.search path .everywhere {} = .ok [⟨2⟩, ⟨5⟩] := by decide +kernel
  exact ⟨hs, hpath, hsteady, hsearch, search_in_order hs hpath hsteady hsearch⟩

/-- The outer of two nested nodes finds what is right below it before the inner one finds what stands
in front of that. -/
theorem search_out_of_order :
    let roots := [("main", Snapshot.node { tag := some "div" }
      [.node { tag := some "div" } [.node { tag := some "span" } []],
        .node { tag := some "span" } []])]
    let s := (Scene.ofSnapshots roots).toOption.getD {}
    let path : List Step :=
      [{ mode := .any, tag := some (.named "div") }, { tag := some (.named "span") }]
    s.IsForest ∧ Path.parse "~div/span" = .ok path ∧
      s.search path .everywhere {} = .ok [⟨3⟩, ⟨2⟩] ∧
      s.Precedes ⟨2⟩ ⟨3⟩ ∧ ¬[(⟨3⟩ : Ref), ⟨2⟩].Pairwise s.Precedes := by
  intro roots s path
  have hs : s.IsForest := isForest_ofSnapshots roots
  have hread : Path.parse "~div/span" = .ok path := by decide +kernel
  have hsearch : s.search path .everywhere {} = .ok [⟨3⟩, ⟨2⟩] := by decide +kernel
  have hchildren : s.children ⟨0⟩ = [⟨1⟩, ⟨3⟩] := by decide +kernel
  have hinner : s.parent? ⟨2⟩ = some ⟨1⟩ := by decide +kernel
  clear_value s
  have hbefore : s.Before ⟨2⟩ ⟨3⟩ :=
    ⟨⟨1⟩, ⟨3⟩, Or.inr ⟨⟨0⟩, hchildren ▸ List.Sublist.refl _⟩, .single hinner, .refl⟩
  refine ⟨hs, hread, hsearch, Or.inr hbefore, fun hpairs => ?_⟩
  have hback : s.Precedes ⟨3⟩ ⟨2⟩ := (List.pairwise_cons.mp hpairs).1 _ (List.mem_singleton.mpr rfl)
  exact hs.precedes_irrefl _ (hs.precedes_trans hback (Or.inr hbefore))

end Scene

end SceneSelect
