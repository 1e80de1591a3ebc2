import SceneSelect.Proofs.Search.Acceptance

/-!
# `Proofs/Search/Alike.lean` — steps that a search cannot tell apart

Of a step, a search looks at where it leads, which is a matter of its mode, its sibling offset and
whether it names a node, and at which nodes it accepts, and as what. **Steps that agree on this find the
same from every starting point** (`Alike.reach_eq`), whatever their filters are.

The filters come in through acceptance alone, which asks whether all of them hold and whether one of
them is a text filter. So **they may be exchanged for others that hold together of the same nodes**
(`alike_of_filters`).
-/

set_option autoImplicit false

namespace SceneSelect

open SceneSelect.Path

namespace Scene

variable {s : Scene} {step step' : Step}

/-- The steps lead to the same places and accept the same nodes, each as the same find. -/
structure Alike (s : Scene) (step step' : Step) : Prop where
  mode : step'.mode = step.mode
  sibling : step'.sibling = step.sibling
  selective : step'.isSelective = step.isSelective
  accept : s.accept? step' = s.accept? step

/-- Filters that hold together of the same nodes, and a text filter among both or among neither. -/
theorem alike_of_filters {filters : List Filter}
    (hholds : ∀ r, s.contains r = true → ((∀ f ∈ filters, (s.resolve? r f).isSome = true) ↔
      ∀ f ∈ step.filters, (s.resolve? r f).isSome = true))
    (htext : { step with filters }.isTextFree = step.isTextFree) :
    s.Alike step { step with filters } := by
  have haccepts : ∀ r, s.Accepts { step with filters } r ↔ s.Accepts step r := by
    intro r
    refine exists_congr fun node => and_congr_right fun hnode => ?_
    have hlive : s.contains r = true := contains_iff.mpr ⟨node, hnode⟩
    exact and_congr_right fun _ => and_congr_right fun _ => hholds r hlive
  refine ⟨rfl, rfl, rfl, funext fun r => Option.ext fun found => ?_⟩
  rw [accept?_eq_some, accept?_eq_some, haccepts, htext]

/-! ## Moves -/

theorem exactBelow_congr (h : s.accept? step = s.accept? step') (n : Nat) (rs : List Ref) :
    s.exactBelow step n rs = s.exactBelow step' n rs := by
  induction n generalizing rs with
  | zero => rfl
  | succ n ih => simp only [exactBelow, h, ih]

theorem anyBelow_congr (h : s.accept? step = s.accept? step') (n : Nat) (rs : List Ref) :
    s.anyBelow step n rs = s.anyBelow step' n rs := by
  induction n generalizing rs with
  | zero => rfl
  | succ n ih => simp only [anyBelow, h, ih, exactBelow_congr h]

end Scene

namespace Area

variable {a : Area} {step step' : Step}

/-- A descent looks at a step only to see which nodes it accepts, and in which mode. -/
theorem descend_congr (hmode : step'.mode = step.mode)
    (haccept : a.scene.accept? step' = a.scene.accept? step) :
    a.descend step' .above = a.descend step .above := by
  unfold descend
  rw [hmode]
  cases step.mode with
  | exact => exact Scene.exactBelow_congr haccept _ _
  | any => exact Scene.anyBelow_congr haccept _ _
  | ancestor => rfl

theorem firstAbove?_congr (h : a.scene.accept? step' = a.scene.accept? step) (rs : List Ref) :
    a.firstAbove? step' rs = a.firstAbove? step rs := by
  induction rs with
  | nil => rfl
  | cons r rest ih => simp only [firstAbove?, h, ih]

end Area

namespace Scene.Alike

variable {a : Area} {step step' : Step}

theorem ancestor_eq (h : a.scene.Alike step step') (r : Ref) :
    a.ancestor? step' r = a.ancestor? step r := by
  simp only [Area.ancestor?, h.selective, h.accept, Area.firstAbove?_congr h.accept]

theorem sibling_eq (h : a.scene.Alike step step') (r : Ref) :
    a.sibling? step' r = a.sibling? step r := by
  simp only [Area.sibling?, h.sibling, h.accept]

theorem descend_eq (h : a.scene.Alike step step') (origin : Origin) :
    a.descend step' origin = a.descend step origin := by
  cases origin with
  | above => exact Area.descend_congr h.mode h.accept
  | node r =>
    unfold Area.descend
    rw [h.mode]
    cases step.mode with
    | exact => exact exactBelow_congr h.accept _ _
    | any => exact anyBelow_congr h.accept _ _
    | ancestor => exact congrArg Option.toList (h.ancestor_eq r)

/-- Steps that are alike find the same from every starting point. -/
theorem reach_eq (h : a.scene.Alike step step') (index : Option Position) :
    a.reach step' index = a.reach step index := by
  funext origin
  simp only [Area.reach, h.sibling, h.descend_eq, h.sibling_eq]

end Scene.Alike

end SceneSelect
