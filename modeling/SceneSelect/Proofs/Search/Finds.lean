import SceneSelect.Proofs.Distinct
import SceneSelect.Proofs.Outcome
import SceneSelect.Proofs.Path.Position
import SceneSelect.Proofs.Scene.Leaves
import SceneSelect.Proofs.Scene.Levels
import SceneSelect.Search.Run

/-!
# `Proofs/Search/Finds.lean` — where the finds of a search come from

A step finds a node because it accepts one: the find is that node itself, or, where the step has a
text filter, the nearest element at or above it (`accept?_cases`). The nodes that a downward step
accepts lie below the children of its starting point, with no text leaf on the way (`mem_descend`); those
of a step upwards are above it, and those of a step sideways have the same parent. What a step keeps of all
its finds is a part of them in the same order (`follow_cases`). So a property of finds is carried from step
to step by one induction, `find_run`.
-/

set_option autoImplicit false

namespace SceneSelect

open SceneSelect.Path

/-! ## Acceptance -/

/-- Does the filter test the text below a node? -/
def Path.Filter.isText : Filter → Bool
  | .text _ => true
  | _ => false

/-- Is there no text filter on the step? -/
def Path.Step.isTextFree (step : Step) : Bool := step.filters.all fun f => !f.isText

namespace Scene

variable {s : Scene} {step : Step} {r found : Ref}

theorem resolve?_cases {f : Filter} (h : s.resolve? r f = some found) :
    found = r ∨ (f.isText = true ∧ s.elementAbove? r = some found) := by
  cases f with
  | text test =>
    rw [resolve?] at h
    split at h
    · exact Or.inr ⟨rfl, h⟩
    · exact absurd h (by simp)
  | _ =>
    rw [resolve?] at h
    split at h
    · exact Or.inl (Option.some.inj h).symm
    · exact absurd h (by simp)

theorem resolveAll?_cases {filters : List Filter} (h : s.resolveAll? r filters = some found) :
    found = r ∨ (filters.any Filter.isText = true ∧ s.elementAbove? r = some found) := by
  -- the node resolved to so far may be any, as long as it is replaced by nothing else
  have fold : ∀ (filters : List Filter) (sofar : Ref),
      filters.foldlM (fun sofar f =>
        (s.resolve? r f).map fun resolved => if resolved = r then sofar else resolved) sofar
          = some found →
      found = sofar ∨ (filters.any Filter.isText = true ∧ s.elementAbove? r = some found) := by
    intro filters
    induction filters with
    | nil => exact fun sofar hfold => Or.inl (Option.some.inj hfold).symm
    | cons f rest ih =>
      intro sofar hfold
      rw [List.foldlM_cons] at hfold
      obtain ⟨next, hnext, hrest⟩ := Option.bind_eq_some_iff.mp hfold
      obtain ⟨resolved, hresolved, rfl⟩ := Option.map_eq_some_iff.mp hnext
      rcases ih _ hrest with heq | ⟨htext, habove⟩
      · rcases resolve?_cases hresolved with rfl | ⟨htext, habove⟩
        · exact Or.inl (by simpa using heq)
        · split at heq
          · exact Or.inl heq
          · subst heq
            exact Or.inr ⟨by rw [List.any_cons, htext, Bool.true_or], habove⟩
      · exact Or.inr ⟨by rw [List.any_cons, htext, Bool.or_true], habove⟩
  exact fold filters r h

theorem accept?_inner (h : s.accept? step r = some found) :
    ∃ node, s.node? r = some node ∧ node.isText = false := by
  rw [accept?] at h
  split at h
  · exact absurd h (by simp)
  · rename_i node hnode
    refine ⟨node, hnode, ?_⟩
    by_contra htext
    rw [Bool.not_eq_false] at htext
    rw [htext, Bool.true_or, if_pos rfl] at h
    exact absurd h (by simp)

/-- A node is found as itself or, through a text filter, as the nearest element above. -/
theorem accept?_cases (h : s.accept? step r = some found) :
    found = r ∨ (step.isTextFree = false ∧ s.elementAbove? r = some found) := by
  rw [accept?] at h
  split at h
  · exact absurd h (by simp)
  · split at h
    · exact absurd h (by simp)
    · refine (resolveAll?_cases h).imp_right fun ⟨htext, habove⟩ => ⟨?_, habove⟩
      rw [Step.isTextFree, ← List.not_any_eq_all_not, htext]
      rfl

/-- Every node that the step accepts is found as itself. -/
def Steady (s : Scene) (step : Step) : Prop :=
  ∀ r found, s.accept? step r = some found → found = r

/-- Text filters lead nowhere else when all nodes but text leaves have an element. -/
theorem steady_of_elements (h : ∀ r node, s.node? r = some node → node.isText = false →
    node.isVirtual = false) (step : Step) : s.Steady step := by
  intro r found haccept
  obtain ⟨node, hnode, hinner⟩ := accept?_inner haccept
  rcases accept?_cases haccept with heq | ⟨-, habove⟩
  · exact heq
  · have helement : s.hasElement r = true := by
      rw [hasElement, hnode, Option.any_some, h r node hnode hinner]
      rfl
    rw [elementAbove?, selfAndAncestors, List.find?_cons_of_pos helement] at habove
    exact (Option.some.inj habove).symm

/-! ## Descents -/

theorem node?_of_inner? {node : Node} (h : s.inner? r = some node) : s.node? r = some node :=
  (Option.filter_eq_some_iff.mp h).1

theorem isInner_of_inner? {node : Node} (h : s.inner? r = some node) : s.IsInner r := by
  obtain ⟨hnode, hinner⟩ := Option.filter_eq_some_iff.mp h
  exact ⟨node, hnode, by simpa using hinner⟩

theorem inner?_of_node {node : Node} (h : s.node? r = some node) :
    s.inner? r = if node.isText then none else some node := by
  rw [inner?, h]
  cases htext : node.isText <;> simp [Option.filter, htext]

/-- The node, its children, their children and so on, but nothing below a text leaf. -/
def DescendsTo (s : Scene) (r c : Ref) : Prop :=
  Relation.ReflTransGen (fun parent child => s.IsInner parent ∧ child ∈ s.children parent) r c

theorem DescendsTo.climbsTo (hs : s.IsForest) {r c : Ref} (h : s.DescendsTo r c) : s.ClimbsTo c r :=
  LeadsTo.climbsTo hs (Relation.ReflTransGen.mono (fun _ _ hchild => hchild.2) r c h)

section Descents

variable {n : Nat} {rs : List Ref}

/-- A find at the children of a node was made for a node below it. -/
theorem exists_accept_of_children {node : Node} (hnode : s.inner? r = some node) (hr : r ∈ rs)
    (h : ∃ child ∈ node.children, ∃ c, s.DescendsTo child c ∧ s.accept? step c = some found) :
    ∃ r ∈ rs, ∃ c, s.DescendsTo r c ∧ s.accept? step c = some found := by
  obtain ⟨child, hchild, c, hc, haccept⟩ := h
  rw [← children_of_node (node?_of_inner? hnode)] at hchild
  exact ⟨r, hr, c, .head ⟨isInner_of_inner? hnode, hchild⟩ hc, haccept⟩

theorem mem_exactBelow (h : found ∈ s.exactBelow step n rs) :
    ∃ r ∈ rs, ∃ c, s.DescendsTo r c ∧ s.accept? step c = some found := by
  induction n generalizing rs with
  | zero => exact absurd h List.not_mem_nil
  | succ n ih =>
    obtain ⟨r, hr, h⟩ := List.mem_flatMap.mp h
    split at h
    · exact absurd h List.not_mem_nil
    · rename_i node hnode
      split at h
      · rename_i target haccept
        obtain rfl := List.mem_singleton.mp h
        exact ⟨r, hr, r, .refl, haccept⟩
      · split at h
        · exact exists_accept_of_children hnode hr (ih h)
        · exact absurd h List.not_mem_nil

theorem mem_anyBelow (h : found ∈ s.anyBelow step n rs) :
    ∃ r ∈ rs, ∃ c, s.DescendsTo r c ∧ s.accept? step c = some found := by
  induction n generalizing rs with
  | zero => exact absurd h List.not_mem_nil
  | succ n ih =>
    obtain ⟨r, hr, h⟩ := List.mem_flatMap.mp h
    split at h
    · exact absurd h List.not_mem_nil
    · rename_i node hnode
      split at h
      · rename_i target haccept
        rcases List.mem_cons.mp h with rfl | h
        · exact ⟨r, hr, r, .refl, haccept⟩
        · exact exists_accept_of_children hnode hr (mem_exactBelow h)
      · exact exists_accept_of_children hnode hr (ih h)

/-- A descent at one node, and from there to its children. -/
theorem exactBelow_node {node : Node} (hnode : s.node? r = some node) (n : Nat) :
    s.exactBelow step (n + 1) [r] =
      if node.isText then []
      else match s.accept? step r with
        | some found => [found]
        | none => if node.tag.isNone then s.exactBelow step n node.children else [] := by
  rw [exactBelow, List.flatMap_singleton, inner?_of_node hnode]
  cases node.isText <;> rfl

theorem anyBelow_node {node : Node} (hnode : s.node? r = some node) (n : Nat) :
    s.anyBelow step (n + 1) [r] =
      if node.isText then []
      else match s.accept? step r with
        | some found => found :: s.exactBelow step n node.children
        | none => s.anyBelow step n node.children := by
  rw [anyBelow, List.flatMap_singleton, inner?_of_node hnode]
  cases node.isText <;> rfl

/-- A descent takes one node after the other. -/
theorem exactBelow_eq_flatMap (s : Scene) (step : Step) (n : Nat) (rs : List Ref) :
    s.exactBelow step n rs = rs.flatMap fun r => s.exactBelow step n [r] := by
  cases n with
  | zero => exact (List.flatMap_eq_nil_iff.mpr fun _ _ => rfl).symm
  | succ n => simp only [exactBelow, List.flatMap_singleton]

theorem anyBelow_eq_flatMap (s : Scene) (step : Step) (n : Nat) (rs : List Ref) :
    s.anyBelow step n rs = rs.flatMap fun r => s.anyBelow step n [r] := by
  cases n with
  | zero => exact (List.flatMap_eq_nil_iff.mpr fun _ _ => rfl).symm
  | succ n => simp only [anyBelow, List.flatMap_singleton]

end Descents

end Scene

/-! ## Steps and paths -/

namespace Area

variable {a : Area} {strict : Bool} {step : Step} {found kept : List Ref}

theorem mem_descend {origin : Origin} {r : Ref} (hmode : step.mode ≠ .ancestor)
    (h : r ∈ a.descend step origin) :
    ∃ child ∈ a.children origin, ∃ c, a.scene.DescendsTo child c ∧
      a.scene.accept? step c = some r := by
  unfold descend at h
  split at h
  · exact Scene.mem_exactBelow h
  · exact Scene.mem_anyBelow h
  · exact absurd h List.not_mem_nil
  · rename_i hancestor
    exact absurd hancestor hmode

theorem exists_accept_of_firstAbove {rs : List Ref} {r : Ref} (h : a.firstAbove? step rs = some r) :
    ∃ c ∈ rs, a.scene.accept? step c = some r := by
  induction rs with
  | nil => exact absurd h (by simp [firstAbove?])
  | cons q rest ih =>
    rw [firstAbove?] at h
    split at h
    · rename_i haccept
      exact ⟨q, List.mem_cons_self, haccept.trans h⟩
    · split at h
      · exact absurd h (by simp)
      · obtain ⟨c, hc, haccept⟩ := ih h
        exact ⟨c, List.mem_cons_of_mem q hc, haccept⟩

/-- The node that a step upwards accepts is above its starting point. -/
theorem exists_accept_of_ancestor {start r : Ref} (h : a.ancestor? step start = some r) :
    ∃ c, a.scene.ClimbsTo start c ∧ a.scene.accept? step c = some r := by
  rw [ancestor?] at h
  split at h
  · exact absurd h (by simp)
  · split at h
    · obtain ⟨c, hc, haccept⟩ := exists_accept_of_firstAbove h
      exact ⟨c, Scene.climbsTo_of_mem_climb hc, haccept⟩
    · obtain ⟨p, hp, haccept⟩ := Option.bind_eq_some_iff.mp h
      exact ⟨p, .single hp, haccept⟩

/-- The node that a step sideways accepts is on the list of its starting point, which is no top node. -/
theorem exists_accept_of_sibling {start r : Ref} (h : a.sibling? step start = some r) :
    start ∉ a.tops ∧ ∃ p, a.scene.parent? start = some p ∧
      ∃ c ∈ a.scene.children p, a.scene.accept? step c = some r := by
  rw [sibling?] at h
  split at h
  · exact absurd h (by simp)
  · rename_i htop
    obtain ⟨⟨p, i⟩, hplace, h⟩ := Option.bind_eq_some_iff.mp h
    dsimp only at h
    split at h
    · exact absurd h (by simp)
    · obtain ⟨sibling, hsibling, haccept⟩ := Option.bind_eq_some_iff.mp h
      have hparent := Scene.parent_of_place hplace
      exact ⟨htop, p, hparent, sibling, List.mem_of_getElem? hsibling, haccept⟩

/-- Where the finds of a step come from: it goes down from its starting point, or up or sideways from a
node. -/
theorem mem_reach {origin : Origin} {index : Option Position} {r : Ref}
    (h : r ∈ a.reach step index origin) :
    (∃ child ∈ a.children origin, ∃ c, a.scene.DescendsTo child c ∧
        a.scene.accept? step c = some r) ∨
      ∃ start, origin = .node start ∧
        (a.ancestor? step start = some r ∨ a.sibling? step start = some r) := by
  have hmoves : r ∈ a.descend step origin ∨
      ∃ start, origin = .node start ∧ a.sibling? step start = some r := by
    unfold reach at h
    split at h
    · split at h
      · exact Or.inl ((Position.pick_sublist _ _).subset h)
      · exact Or.inl h
    · cases origin with
      | above => exact absurd h List.not_mem_nil
      | node start => exact Or.inr ⟨start, rfl, Option.mem_toList.mp h⟩
  rcases hmoves with hdescend | ⟨start, horigin, hsibling⟩
  · by_cases hmode : step.mode = .ancestor
    · unfold descend at hdescend
      rw [hmode] at hdescend
      cases origin with
      | above => exact absurd hdescend List.not_mem_nil
      | node start => exact Or.inr ⟨start, rfl, Or.inl (Option.mem_toList.mp hdescend)⟩
    · exact Or.inl (mem_descend hmode hdescend)
  · exact Or.inr ⟨start, horigin, Or.inr hsibling⟩

/-- A bare index keeps one of the finds at most, and without one all are kept. -/
theorem slice_cases (h : slice strict step found = .ok kept) :
    (step.soleIndex? = none ∧ kept = found) ∨
      (step.soleIndex?.isSome = true ∧ kept.Sublist found ∧ kept.length ≤ 1) := by
  rw [slice] at h
  split at h
  · rename_i hnone
    exact Or.inl ⟨hnone, (Except.ok.inj h).symm⟩
  · rename_i p hsome
    have hpick : kept = p.pick found := by
      split at h
      · rename_i hnil
        split at h
        · exact absurd h (by simp)
        · rw [hnil, Except.ok.inj h]
      · exact (Except.ok.inj h).symm
    rw [hpick, hsome]
    exact Or.inr ⟨rfl, p.pick_sublist found, p.length_pick_le found⟩

theorem follow_cases {origins : List Origin} (h : a.follow strict origins step = .ok kept) :
    ∃ p, childIndex step = .ok p ∧ kept.Sublist (origins.flatMap (a.reach step p)) ∧
      (step.soleIndex?.isSome = true → kept.length ≤ 1) := by
  obtain ⟨p, hp, hslice⟩ := bind_eq_ok_iff.mp h
  refine ⟨p, hp, ?_⟩
  have hdups := eraseDups_sublist (origins.flatMap (a.reach step p))
  rcases slice_cases hslice with ⟨hnone, rfl⟩ | ⟨-, hsub, hlen⟩
  · exact ⟨hdups, fun hsome => absurd hsome (by simp [hnone])⟩
  · exact ⟨hsub.trans hdups, fun _ => hlen⟩

/-- What holds of the starting points above the area, and goes from the starting points of a step to
its finds, holds of the finds of the path. `P` may look at the steps that are still to come. -/
theorem find_run {P : List Step → List Origin → Prop} {path : List Step}
    (hnone : ∀ steps, P steps [] → P steps.tail [])
    (hstep : ∀ step rest origins found, P (step :: rest) origins →
      a.follow strict origins step = .ok found → P rest (found.map .node))
    (hstart : P path [.above]) (hnil : path = [] → P [] []) (hfind : a.find strict path = .ok found) :
    P [] (found.map .node) := by
  have run : ∀ (rest : List Step) (sofar : List Ref), P rest (sofar.map .node) →
      rest.foldlM (a.next strict) sofar = .ok found → P [] (found.map .node) := by
    intro rest
    induction rest with
    | nil =>
      intro sofar hsofar hfold
      obtain rfl := pure_eq_ok_iff.mp hfold
      exact hsofar
    | cons step rest ih =>
      intro sofar hsofar hfold
      rw [List.foldlM_cons] at hfold
      obtain ⟨following, hnext, hrest⟩ := bind_eq_ok_iff.mp hfold
      refine ih following ?_ hrest
      rw [next] at hnext
      split at hnext
      · rename_i hempty
        obtain rfl := Except.ok.inj hnext
        rw [List.isEmpty_iff.mp hempty] at hsofar
        exact hnone _ hsofar
      · exact hstep step rest _ _ hsofar hnext
  cases path with
  | nil =>
    obtain rfl := Except.ok.inj hfind
    exact hnil rfl
  | cons first rest =>
    obtain ⟨sofar, hfirst, hrest⟩ := bind_eq_ok_iff.mp hfind
    exact run rest sofar (hstep first rest _ _ hstart hfirst) hrest

/-- A path of one step. -/
theorem find_singleton : a.find strict [step] = a.follow strict [.above] step :=
  bind_pure (a.follow strict [.above] step)

/-- A search goes on from where it has come. -/
theorem find_append {before : List Step} (hne : before ≠ []) (rest : List Step) :
    a.find strict (before ++ rest) =
      (a.find strict before).bind fun sofar => rest.foldlM (a.next strict) sofar := by
  obtain ⟨first, steps, rfl⟩ := List.exists_cons_of_ne_nil hne
  rw [List.cons_append, find, find]
  cases a.follow strict [.above] first with
  | error cause => rfl
  | ok sofar => exact List.foldlM_append

theorem find_concat {before : List Step} (hne : before ≠ []) (step : Step) :
    a.find strict (before ++ [step]) =
      (a.find strict before).bind fun sofar => a.next strict sofar step := by
  rw [find_append hne]
  cases a.find strict before with
  | error cause => rfl
  | ok sofar => exact bind_pure (a.next strict sofar step)

theorem next_nil : a.next strict [] step = .ok [] := rfl

theorem next_of_ne_nil (hne : found ≠ []) :
    a.next strict found step = a.follow strict (found.map .node) step := by
  rw [next, if_neg (by simpa using hne)]

/-- The finds of a path are those of its last step, from some starting points, unless the search was
over before. -/
theorem follow_of_find {path : List Step} {last : Step} (hlast : path.getLast? = some last)
    (h : a.find strict path = .ok kept) :
    kept = [] ∨ ∃ origins, a.follow strict origins last = .ok kept := by
  obtain ⟨before, rfl⟩ := List.getLast?_eq_some_iff.mp hlast
  by_cases hne : before = []
  · subst hne
    exact Or.inr ⟨[.above], find_singleton.symm.trans h⟩
  · rw [find_concat hne] at h
    obtain ⟨sofar, -, hnext⟩ := bind_eq_ok_iff.mp h
    by_cases hempty : sofar = []
    · subst hempty
      exact Or.inl (Except.ok.inj hnext).symm
    · rw [next_of_ne_nil hempty] at hnext
      exact Or.inr ⟨_, hnext⟩

end Area

/-- Where finds are kept as they are, a search is the path followed through the area of its scope. -/
theorem Scene.search_logical_iff {s : Scene} {path : List Step} {scope : Scope} {strict : Bool}
    {found : List Ref} :
    s.search path scope { element := .logical, strictIndex := strict } = .ok found ↔
      Area.find ⟨s, scope.tops s⟩ strict path = .ok found := by
  rw [search]
  cases Area.find ⟨s, scope.tops s⟩ strict path with
  | error cause => simp [Except.bind, Except.mapError]
  | ok kept => simp [Except.bind, Except.mapError, applyRule]

/-! ## Searches at a host -/

namespace Host

variable {h : Host} {s : Scene} {text : String} {path : List Step}

theorem findAll_eq (hscene : h.scene = some s) (hread : readPath text = .ok path) (rules : FindRules)
    (scope : Scope) : h.findAll rules text scope = s.search path scope rules := by
  rw [findAll, hread]
  show h.search rules path scope = _
  rw [Host.search, tryRead, read, hscene]
  rfl

theorem readFirst_eq {α : Type} (hscene : h.scene = some s) (hread : readPath text = .ok path)
    (rules : FindRules) (look : Scene → Ref → Option α) :
    h.readFirst rules text look =
      (s.search path .everywhere rules).map fun found => found.head?.bind (look s) := by
  rw [readFirst, hread]
  show h.tryRead _ = _
  rw [tryRead, read, hscene]
  rfl

end Host

end SceneSelect
