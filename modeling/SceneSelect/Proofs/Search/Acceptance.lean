import SceneSelect.Proofs.Scene.Leaves
import SceneSelect.Proofs.Scene.Levels
import SceneSelect.Proofs.Search.Finds

/-!
# `Proofs/Search/Acceptance.lean` — when a step accepts a node, and what it is found as

Acceptance is computed in one go: the filters are gone through in order, each may resolve to another
node, and the last that does decides what is found. But filters do not disagree about that other node.
It is the nearest element at or above, whichever text filter asks, so the order does not matter:

> **A step accepts a node if it is structured, passes the tests on its names, and all filters hold;
> without a text filter it is found as itself, and with one as the nearest element at or above it**
> (`accept?_eq_some_iff`).
-/

set_option autoImplicit false

namespace SceneSelect.Scene

open SceneSelect.Path

variable {s : Scene} {step : Step} {r e found : Ref}

/-! ## The nearest element above -/

/-- An element at or above the node, and every other one there is above this one. -/
structure IsNearestAbove (s : Scene) (r e : Ref) : Prop where
  element : s.hasElement e = true
  above : s.ClimbsTo r e
  nearest : ∀ other, s.hasElement other = true → s.ClimbsTo r other → s.ClimbsTo e other

theorem IsForest.eq_of_isNearestAbove (hs : s.IsForest) {e' : Ref} (h : s.IsNearestAbove r e)
    (h' : s.IsNearestAbove r e') : e = e' :=
  hs.climbsTo_antisymm (h.nearest e' h'.element h'.above) (h'.nearest e h.element h.above)

theorem elementAbove?_of_hasElement (hr : s.hasElement r = true) : s.elementAbove? r = some r := by
  rw [elementAbove?, selfAndAncestors, List.find?_cons_of_pos hr]

theorem IsForest.elementAbove?_of_parent (hs : s.IsForest) {p : Ref} (hr : ¬s.hasElement r = true)
    (hp : s.parent? r = some p) : s.elementAbove? r = s.elementAbove? p := by
  rw [elementAbove?, selfAndAncestors, List.find?_cons_of_neg hr, hs.ancestors_of_parent hp]
  rfl

theorem isNearestAbove_self (hr : s.hasElement r = true) : s.IsNearestAbove r r :=
  ⟨hr, .refl, fun _ _ h => h⟩

/-- Above a node without an element the nearest is that of the parent. -/
theorem isNearestAbove_of_parent {p : Ref} (hr : ¬s.hasElement r = true)
    (hp : s.parent? r = some p) : s.IsNearestAbove r e ↔ s.IsNearestAbove p e := by
  have climb : ∀ {q}, s.hasElement q = true → (s.ClimbsTo r q ↔ s.ClimbsTo p q) := by
    intro q hq
    have hne : r ≠ q := fun heq => hr (heq ▸ hq)
    exact ⟨fun h => h.parent_of_ne hne hp, fun h => .head hp h⟩
  constructor
  · intro h
    exact ⟨h.element, (climb h.element).mp h.above,
      fun other ho habove => h.nearest other ho ((climb ho).mpr habove)⟩
  · intro h
    exact ⟨h.element, (climb h.element).mpr h.above,
      fun other ho habove => h.nearest other ho ((climb ho).mp habove)⟩

theorem elementAbove?_eq_some_iff (hs : s.IsForest) (hr : s.contains r = true) :
    s.elementAbove? r = some e ↔ s.IsNearestAbove r e := by
  obtain ⟨root, hroot, hclimb⟩ := hs.grounded r hr
  induction hclimb using Relation.ReflTransGen.head_induction_on with
  | refl =>
    have hp : s.parent? root = none := ((hs.mem_roots root).mp hroot).2
    constructor
    · intro h
      obtain rfl := elementAbove?_of_root hp h
      exact isNearestAbove_self (hasElement_elementAbove h)
    · intro h
      -- nothing is above a root but itself
      obtain heq | ⟨p, hparent, -⟩ := Relation.ReflTransGen.cases_head h.above
      · subst heq
        exact elementAbove?_of_hasElement h.element
      · exact absurd (hp.symm.trans hparent) (by simp)
  | @head r p hp _ ih =>
    by_cases helement : s.hasElement r = true
    · rw [elementAbove?_of_hasElement helement, Option.some.injEq]
      constructor
      · rintro rfl
        exact isNearestAbove_self helement
      · exact fun h => hs.eq_of_isNearestAbove (isNearestAbove_self helement) h
    · rw [hs.elementAbove?_of_parent helement hp, isNearestAbove_of_parent helement hp]
      exact ih (hs.contains_parent hp)

/-! ## Filters -/

/-- What a filter resolves to, if it holds. -/
theorem resolve?_eq_some_iff {f : Filter} :
    s.resolve? r f = some found ↔
      (s.resolve? r f).isSome = true ∧
        found = if f.isText then (s.elementAbove? r).getD r else r := by
  cases hresolve : s.resolve? r f with
  | none => simp
  | some resolved =>
    have heq : resolved = if f.isText then (s.elementAbove? r).getD r else r := by
      cases f with
      | text test =>
        rw [resolve?] at hresolve
        split at hresolve
        · rw [hresolve]
          rfl
        · exact absurd hresolve (by simp)
      | _ =>
        rcases resolve?_cases hresolve with rfl | ⟨htext, -⟩
        · rfl
        · exact absurd htext (by simp [Filter.isText])
    rw [Option.some.injEq, heq, Option.isSome_some, and_iff_right rfl]
    exact eq_comm

/-- All filters that resolve elsewhere resolve to the same node. -/
theorem resolveAll?_eq_some_iff {filters : List Filter} :
    s.resolveAll? r filters = some found ↔
      (∀ f ∈ filters, (s.resolve? r f).isSome = true) ∧
        found = if filters.any Filter.isText then (s.elementAbove? r).getD r else r := by
  generalize helement : (s.elementAbove? r).getD r = e
  -- with a text filter among those to come, it does not matter what was found so far, as long as
  -- that is the node itself or the element above
  have fold : ∀ (filters : List Filter) (sofar : Ref),
      filters.foldlM (fun sofar f =>
        (s.resolve? r f).map fun resolved => if resolved = r then sofar else resolved) sofar
          = some found ↔
      (∀ f ∈ filters, (s.resolve? r f).isSome = true) ∧
        found = if filters.any Filter.isText ∧ e ≠ r then e else sofar := by
    intro filters
    induction filters with
    | nil =>
      intro sofar
      simp only [List.foldlM_nil, List.any_nil, Bool.false_eq_true, false_and, if_false,
        List.not_mem_nil, IsEmpty.forall_iff, implies_true, true_and]
      exact Option.some_inj.trans eq_comm
    | cons f rest ih =>
      intro sofar
      rw [List.foldlM_cons, List.forall_mem_cons, List.any_cons]
      cases hresolve : s.resolve? r f with
      | none => simp
      | some resolved =>
        have heq : resolved = if f.isText then e else r :=
          helement ▸ (resolve?_eq_some_iff.mp hresolve).2
        show List.foldlM _ (if resolved = r then sofar else resolved) rest = _ ↔ _
        rw [ih, heq]
        by_cases htext : f.isText = true <;> by_cases hself : e = r <;> simp [htext, hself]
  rw [resolveAll?, fold]
  by_cases hself : e = r <;> simp [hself]

/-! ## Acceptance -/

/-- The step accepts the node. -/
def Accepts (s : Scene) (step : Step) (r : Ref) : Prop :=
  ∃ node, s.node? r = some node ∧ node.isText = false ∧ passes step node = true ∧
    ∀ f ∈ step.filters, (s.resolve? r f).isSome = true

/-- What a node is found as that the step accepts: itself or, if the step has a text filter, the nearest
element at or above. -/
def IsFoundAs (s : Scene) (step : Step) (r found : Ref) : Prop :=
  if step.isTextFree then found = r else s.IsNearestAbove r found

theorem Accepts.isInner (h : s.Accepts step r) : s.IsInner r := by
  obtain ⟨node, hnode, hinner, -⟩ := h
  exact ⟨node, hnode, hinner⟩

/-- A text filter that holds has an element to resolve to. -/
theorem exists_elementAbove_of_text {f : Filter} (htext : f.isText = true)
    (h : (s.resolve? r f).isSome = true) : ∃ e, s.elementAbove? r = some e := by
  cases f with
  | text test =>
    rw [resolve?] at h
    split at h
    · exact Option.isSome_iff_exists.mp h
    · exact absurd h (by simp)
  | _ => exact absurd htext (by simp [Filter.isText])

/-- Acceptance, and what it computes. -/
theorem accept?_eq_some :
    s.accept? step r = some found ↔
      s.Accepts step r ∧ found = if step.isTextFree then r else (s.elementAbove? r).getD r := by
  cases hnode : s.node? r with
  | none => simp [accept?, Accepts, hnode]
  | some node =>
    have hpass : s.Accepts step r ↔ (node.isText = false ∧ passes step node = true) ∧
        ∀ f ∈ step.filters, (s.resolve? r f).isSome = true := by
      simp [Accepts, hnode, and_assoc]
    have haccept : s.accept? step r = some found ↔
        (node.isText = false ∧ passes step node = true) ∧
          s.resolveAll? r step.filters = some found := by
      cases htext : node.isText <;> cases hnames : passes step node <;>
        simp [accept?, hnode, htext, hnames]
    rw [haccept, hpass, resolveAll?_eq_some_iff, Step.isTextFree, ← List.not_any_eq_all_not, and_assoc,
      and_assoc, and_assoc]
    cases step.filters.any Filter.isText <;> rfl

theorem exists_accept_iff : (∃ found, s.accept? step r = some found) ↔ s.Accepts step r := by
  constructor
  · rintro ⟨found, h⟩
    exact (accept?_eq_some.mp h).1
  · exact fun h => ⟨_, accept?_eq_some.mpr ⟨h, rfl⟩⟩

theorem accept?_eq_none_iff : s.accept? step r = none ↔ ¬s.Accepts step r := by
  rw [← exists_accept_iff, Option.eq_none_iff_forall_ne_some, not_exists]

theorem accept?_eq_some_iff (hs : s.IsForest) :
    s.accept? step r = some found ↔ s.Accepts step r ∧ s.IsFoundAs step r found := by
  rw [accept?_eq_some]
  refine and_congr_right fun ⟨node, hnode, _, _, hall⟩ => ?_
  rw [IsFoundAs]
  cases hfree : step.isTextFree with
  | true => rfl
  | false =>
    obtain ⟨f, hf, hnot⟩ := List.all_eq_false.mp hfree
    have htext : f.isText = true := by simpa using hnot
    obtain ⟨e, he⟩ := exists_elementAbove_of_text htext (hall f hf)
    simp only [Bool.false_eq_true, if_false]
    rw [← elementAbove?_eq_some_iff hs (contains_iff.mpr ⟨node, hnode⟩), he, Option.getD_some,
      Option.some_inj]
    exact eq_comm

end SceneSelect.Scene
