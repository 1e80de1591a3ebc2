import SceneSelect.Proofs.Scene.Nearest
import SceneSelect.Proofs.Search.Acceptance

/-!
# `Proofs/Search/Descent.lean` — what a downward step finds

The two descents are written as recursions that call each other. What they come to can be said of one
node at a time, from the nodes on the way down to it:

* in the mode for children, the step must accept the node, and must not accept any node on the way; all
  of these must be structured and without a tag;
* in the mode for whole subtrees, no text leaf may be on the way, and the step may accept one node there,
  from which the rest of the way is without tags.

> **A downward step finds the nodes of which this holds, all of them, each once, in pre-order, and each as
> what it is found as** (`descend_targets`).

A way down begins in a `part` of the scene, which is all that lies below a starting point, or at or below
a top node. `exactMatch_iff`, `anyMatch_iff_of_accepts` and `anyMatch_iff_of_not_accepts` say of the two
conditions what the recursions do: a node below `r` matches as seen from `r` if it does as seen from a child
of `r`, and `r` lets the way pass.
-/

set_option autoImplicit false

namespace SceneSelect

open SceneSelect.Path

namespace Scene

variable {s : Scene} {step : Step} {r : Ref}

/-! ## On the way down -/

/-- What lies at or below a node. -/
def AtOrBelow (s : Scene) (r n : Ref) : Prop := s.ClimbsTo n r

/-- What lies below a node. -/
def Below (s : Scene) (r n : Ref) : Prop := n ≠ r ∧ s.ClimbsTo n r

/-- The node is in the part, and strictly above the other. -/
def Between (s : Scene) (part : Ref → Prop) (n m : Ref) : Prop := part m ∧ m ≠ n ∧ s.ClimbsTo n m

/-- There is a node without a tag. -/
def IsUntagged (s : Scene) (r : Ref) : Prop := ∃ node, s.node? r = some node ∧ node.tag = none

/-- The step accepts the node, and on the way down to it lie only structured nodes without a tag, none of
which it accepts. -/
def ExactMatch (s : Scene) (step : Step) (part : Ref → Prop) (n : Ref) : Prop :=
  part n ∧ s.Accepts step n ∧
    ∀ m, s.Between part n m → s.IsInner m ∧ s.IsUntagged m ∧ ¬s.Accepts step m

/-- The step accepts the node, and no text leaf lies on the way down to it. Of the nodes on the way it
accepts none, or exactly one from which the rest of the way is without tags. -/
def AnyMatch (s : Scene) (step : Step) (part : Ref → Prop) (n : Ref) : Prop :=
  part n ∧ s.Accepts step n ∧ (∀ m, s.Between part n m → ¬s.IsText m) ∧
    ((∀ m, s.Between part n m → ¬s.Accepts step m) ∨
      ∃ m, s.Between part n m ∧ s.Accepts step m ∧
        (∀ other, s.Between part n other → s.Accepts step other → other = m) ∧
        ∀ w, s.Between (s.Below m) n w → s.IsUntagged w)

/-! ## From a node to its children -/

section Children

variable {c n m : Ref}

/-- A way up that passes a child of the node leads through no other child. -/
theorem IsForest.climbsTo_child_or (hs : s.IsForest) (hc : c ∈ s.children r) (hn : s.ClimbsTo n c)
    (hm : s.ClimbsTo n m) (hr : s.ClimbsTo m r) : m = r ∨ s.ClimbsTo m c := by
  have hp := (hs.children_live r c hc).2
  rcases hn.total hm with hcm | hmc
  · obtain heq | ⟨p, hparent, hrest⟩ := Relation.ReflTransGen.cases_head hcm
    · exact Or.inr (heq ▸ .refl)
    · obtain rfl := Option.some.inj (hp.symm.trans hparent)
      exact Or.inl (hs.climbsTo_antisymm hr hrest)
  · exact Or.inr hmc

theorem IsForest.between_child_iff (hs : s.IsForest) (hc : c ∈ s.children r) (hn : s.AtOrBelow c n) :
    s.Between (s.AtOrBelow r) n m ↔ m = r ∨ s.Between (s.AtOrBelow c) n m := by
  have hcr := hs.climbsTo_of_child hc
  constructor
  · rintro ⟨hr, hne, hclimb⟩
    exact (hs.climbsTo_child_or hc hn hclimb hr).imp_right fun hmc => ⟨hmc, hne, hclimb⟩
  · rintro (rfl | ⟨hmc, hne, hclimb⟩)
    · refine ⟨.refl, ?_, hn.trans hcr⟩
      rintro rfl
      exact hs.acyclic (hs.children_live _ c hc).2 hn
    · exact ⟨hmc.trans hcr, hne, hclimb⟩

/-- Below a node is what is at or below a child, and the node is not on the way down to it. -/
theorem IsForest.between_below_iff (hs : s.IsForest) (hc : c ∈ s.children r) (hn : s.AtOrBelow c n) :
    s.Between (s.Below r) n m ↔ s.Between (s.AtOrBelow c) n m := by
  constructor
  · rintro ⟨⟨hmr, hr⟩, hne, hclimb⟩
    exact ⟨(hs.climbsTo_child_or hc hn hclimb hr).resolve_left hmr, hne, hclimb⟩
  · rintro ⟨hmc, hne, hclimb⟩
    refine ⟨⟨?_, hmc.trans (hs.climbsTo_of_child hc)⟩, hne, hclimb⟩
    rintro rfl
    exact hs.acyclic (hs.children_live _ c hc).2 hmc

theorem IsForest.below_iff (hs : s.IsForest) :
    s.Below r n ↔ ∃ c ∈ s.children r, s.AtOrBelow c n := by
  constructor
  · rintro ⟨hne, hclimb⟩
    exact (hs.climbsTo_iff.mp hclimb).resolve_left hne
  · rintro ⟨c, hc, hclimb⟩
    refine ⟨?_, hclimb.trans (hs.climbsTo_of_child hc)⟩
    rintro rfl
    exact hs.acyclic (hs.children_live _ c hc).2 hclimb

/-- Nothing is on the way from a node to itself. -/
theorem IsForest.not_between_self (hs : s.IsForest) : ¬s.Between (s.AtOrBelow r) r m :=
  fun h => h.2.1 (hs.climbsTo_antisymm h.1 h.2.2)

theorem IsForest.contains_between (hs : s.IsForest) {part : Ref → Prop} (hn : s.Accepts step n)
    (h : s.Between part n m) : s.contains m = true :=
  hs.contains_climbsTo hn.isInner.contains h.2.2

/-! ## The conditions, level by level -/

theorem exactMatch_iff (hs : s.IsForest) :
    s.ExactMatch step (s.AtOrBelow r) n ↔
      (n = r ∧ s.Accepts step r) ∨
        ((s.IsInner r ∧ s.IsUntagged r ∧ ¬s.Accepts step r) ∧
          ∃ c ∈ s.children r, s.ExactMatch step (s.AtOrBelow c) n) := by
  constructor
  · rintro ⟨hn, haccepts, hway⟩
    rcases hs.climbsTo_iff.mp hn with rfl | ⟨c, hc, hnc⟩
    · exact Or.inl ⟨rfl, haccepts⟩
    · refine Or.inr ⟨hway r ((hs.between_child_iff hc hnc).mpr (Or.inl rfl)), c, hc, hnc, haccepts, ?_⟩
      exact fun m hm => hway m ((hs.between_child_iff hc hnc).mpr (Or.inr hm))
  · rintro (⟨rfl, haccepts⟩ | ⟨hr, c, hc, hnc, haccepts, hway⟩)
    · exact ⟨.refl, haccepts, fun m hm => absurd hm hs.not_between_self⟩
    · refine ⟨hnc.trans (hs.climbsTo_of_child hc), haccepts, fun m hm => ?_⟩
      rcases (hs.between_child_iff hc hnc).mp hm with rfl | hm
      · exact hr
      · exact hway m hm

/-- Below a node that the step accepts, a match in the whole subtree is one as seen from a child. -/
theorem anyMatch_iff_of_accepts (hs : s.IsForest) (hr : s.Accepts step r) :
    s.AnyMatch step (s.AtOrBelow r) n ↔
      n = r ∨ ∃ c ∈ s.children r, s.ExactMatch step (s.AtOrBelow c) n := by
  constructor
  · rintro ⟨hn, haccepts, hnotext, hway⟩
    rcases hs.climbsTo_iff.mp hn with rfl | ⟨c, hc, hnc⟩
    · exact Or.inl rfl
    · have hrway := (hs.between_child_iff hc hnc).mpr (Or.inl rfl)
      obtain hnone | ⟨m, -, -, honly, huntagged⟩ := hway
      · exact absurd hr (hnone r hrway)
      · -- the one node on the way that the step accepts is the one that the way begins with
        obtain rfl := honly r hrway hr
        refine Or.inr ⟨c, hc, hnc, haccepts, fun w hw => ⟨?_, ?_, fun haccept => ?_⟩⟩
        · exact isInner_of_contains (hs.contains_between haccepts hw)
            (hnotext w ((hs.between_child_iff hc hnc).mpr (Or.inr hw)))
        · exact huntagged w ((hs.between_below_iff hc hnc).mpr hw)
        · have hback := honly w ((hs.between_child_iff hc hnc).mpr (Or.inr hw)) haccept
          exact hs.acyclic (hs.children_live _ c hc).2 (hback ▸ hw.1)
  · rintro (rfl | ⟨c, hc, hnc, haccepts, hway⟩)
    · exact ⟨.refl, hr, fun m hm => absurd hm hs.not_between_self,
        Or.inl fun m hm => absurd hm hs.not_between_self⟩
    · have hsplit : ∀ {m}, s.Between (s.AtOrBelow r) n m → m = r ∨ s.Between (s.AtOrBelow c) n m :=
        fun hm => (hs.between_child_iff hc hnc).mp hm
      refine ⟨hnc.trans (hs.climbsTo_of_child hc), haccepts, fun m hm => ?_, Or.inr ⟨r, ?_, hr, ?_, ?_⟩⟩
      · rcases hsplit hm with rfl | hm
        · exact hr.isInner.not_isText
        · exact (hway m hm).1.not_isText
      · exact (hs.between_child_iff hc hnc).mpr (Or.inl rfl)
      · intro other hother haccept
        exact (hsplit hother).resolve_right fun hm => (hway other hm).2.2 haccept
      · exact fun w hw => (hway w ((hs.between_below_iff hc hnc).mp hw)).2.1

theorem anyMatch_iff_of_not_accepts (hs : s.IsForest) (hr : ¬s.Accepts step r) :
    s.AnyMatch step (s.AtOrBelow r) n ↔
      s.IsInner r ∧ ∃ c ∈ s.children r, s.AnyMatch step (s.AtOrBelow c) n := by
  constructor
  · rintro ⟨hn, haccepts, hnotext, hway⟩
    rcases hs.climbsTo_iff.mp hn with rfl | ⟨c, hc, hnc⟩
    · exact absurd haccepts hr
    · have hwiden : ∀ {m}, s.Between (s.AtOrBelow c) n m → s.Between (s.AtOrBelow r) n m :=
        fun hm => (hs.between_child_iff hc hnc).mpr (Or.inr hm)
      have hrway := (hs.between_child_iff hc hnc).mpr (Or.inl rfl)
      refine ⟨isInner_of_contains (contains_of_child hc) (hnotext r hrway), c, hc, hnc, haccepts,
        fun m hm => hnotext m (hwiden hm), ?_⟩
      refine hway.imp (fun hnone m hm => hnone m (hwiden hm)) ?_
      rintro ⟨m, hm, haccept, honly, huntagged⟩
      have hmr : m ≠ r := fun heq => hr (heq ▸ haccept)
      exact ⟨m, ((hs.between_child_iff hc hnc).mp hm).resolve_left hmr, haccept,
        fun other hother => honly other (hwiden hother), huntagged⟩
  · rintro ⟨hinner, c, hc, hnc, haccepts, hnotext, hway⟩
    have hsplit : ∀ {m}, s.Between (s.AtOrBelow r) n m → m = r ∨ s.Between (s.AtOrBelow c) n m :=
      fun hm => (hs.between_child_iff hc hnc).mp hm
    refine ⟨hnc.trans (hs.climbsTo_of_child hc), haccepts, fun m hm => ?_, ?_⟩
    · rcases hsplit hm with rfl | hm
      · exact hinner.not_isText
      · exact hnotext m hm
    · have narrow : ∀ {m}, s.Between (s.AtOrBelow r) n m → s.Accepts step m →
          s.Between (s.AtOrBelow c) n m :=
        fun hm haccept => (hsplit hm).resolve_left fun heq => hr (heq ▸ haccept)
      refine hway.imp (fun hnone m hm haccept => hnone m (narrow hm haccept) haccept) ?_
      rintro ⟨m, hm, haccept, honly, huntagged⟩
      exact ⟨m, (hs.between_child_iff hc hnc).mpr (Or.inr hm), haccept,
        fun other hother ha => honly other (narrow hother ha) ha, huntagged⟩

/-- What is asked of a node below another, from the nodes on the way down to it, is asked of it as seen
from a child. -/
theorem IsForest.below_and_iff (hs : s.IsForest) {P : (Ref → Prop) → Prop} :
    s.Below r n ∧ P (s.Between (s.Below r) n) ↔
      ∃ c ∈ s.children r, s.AtOrBelow c n ∧ P (s.Between (s.AtOrBelow c) n) := by
  have same : ∀ c ∈ s.children r, s.AtOrBelow c n →
      s.Between (s.Below r) n = s.Between (s.AtOrBelow c) n :=
    fun c hc hnc => funext fun m => propext (hs.between_below_iff hc hnc)
  rw [hs.below_iff]
  constructor
  · rintro ⟨⟨c, hc, hnc⟩, hP⟩
    exact ⟨c, hc, hnc, same c hc hnc ▸ hP⟩
  · rintro ⟨c, hc, hnc, hP⟩
    exact ⟨⟨c, hc, hnc⟩, same c hc hnc ▸ hP⟩

theorem exactMatch_below_iff (hs : s.IsForest) :
    s.ExactMatch step (s.Below r) n ↔ ∃ c ∈ s.children r, s.ExactMatch step (s.AtOrBelow c) n :=
  hs.below_and_iff (P := fun way => s.Accepts step n ∧
    ∀ m, way m → s.IsInner m ∧ s.IsUntagged m ∧ ¬s.Accepts step m)

theorem anyMatch_below_iff (hs : s.IsForest) :
    s.AnyMatch step (s.Below r) n ↔ ∃ c ∈ s.children r, s.AnyMatch step (s.AtOrBelow c) n :=
  hs.below_and_iff (P := fun way => s.Accepts step n ∧ (∀ m, way m → ¬s.IsText m) ∧
    ((∀ m, way m → ¬s.Accepts step m) ∨
      ∃ m, way m ∧ s.Accepts step m ∧ (∀ other, way other → s.Accepts step other → other = m) ∧
        ∀ w, s.Between (s.Below m) n w → s.IsUntagged w))

end Children

/-! ## Lists of nodes in pre-order -/

/-- The list holds the nodes of which this is true, all of them, in pre-order. -/
def Lists (s : Scene) (P : Ref → Prop) (nodes : List Ref) : Prop :=
  nodes.Pairwise s.Precedes ∧ ∀ n, n ∈ nodes ↔ P n

/-- What the nodes are found as of which this is true, in pre-order of the nodes. -/
def Yields (s : Scene) (step : Step) (P : Ref → Prop) (found : List Ref) : Prop :=
  ∃ nodes, s.Lists P nodes ∧ List.Forall₂ (s.IsFoundAs step) nodes found

namespace Yields

variable {P Q : Ref → Prop} {found : List Ref}

theorem nil (h : ∀ n, ¬P n) : s.Yields step P [] :=
  ⟨[], ⟨.nil, fun n => iff_of_false List.not_mem_nil (h n)⟩, .nil⟩

theorem congr (h : s.Yields step P found) (hPQ : ∀ n, P n ↔ Q n) : s.Yields step Q found := by
  obtain ⟨nodes, ⟨horder, hmem⟩, htargets⟩ := h
  exact ⟨nodes, ⟨horder, fun n => (hmem n).trans (hPQ n)⟩, htargets⟩

theorem append {later : List Ref} (h : s.Yields step P found) (h' : s.Yields step Q later)
    (hPQ : ∀ m n, P m → Q n → s.Precedes m n) :
    s.Yields step (fun n => P n ∨ Q n) (found ++ later) := by
  obtain ⟨nodes, ⟨horder, hmem⟩, htargets⟩ := h
  obtain ⟨nodes', ⟨horder', hmem'⟩, htargets'⟩ := h'
  refine ⟨nodes ++ nodes', ⟨List.pairwise_append.mpr ⟨horder, horder', ?_⟩, fun n => ?_⟩,
    List.rel_append htargets htargets'⟩
  · exact fun m hm n hn => hPQ m n ((hmem m).mp hm) ((hmem' n).mp hn)
  · rw [List.mem_append, hmem, hmem']

theorem singleton {target : Ref} (h : s.IsFoundAs step r target) :
    s.Yields step (fun n => n = r) [target] :=
  ⟨[r], ⟨List.pairwise_singleton _ r, fun _ => List.mem_singleton⟩, .cons h .nil⟩

/-- Nodes that stand side by side, and below each of them its own. -/
theorem flatMap {rs : List Ref} {P : Ref → Ref → Prop} {finds : Ref → List Ref}
    (hrs : rs.Pairwise s.Before) (hbelow : ∀ r n, P r n → s.ClimbsTo n r)
    (h : ∀ r ∈ rs, s.Yields step (P r) (finds r)) :
    s.Yields step (fun n => ∃ r ∈ rs, P r n) (rs.flatMap finds) := by
  induction rs with
  | nil => exact nil fun n h => absurd h (by simp)
  | cons r rest ih =>
    obtain ⟨hr, hrest⟩ := List.pairwise_cons.mp hrs
    obtain ⟨hfirst, hothers⟩ := List.forall_mem_cons.mp h
    rw [List.flatMap_cons]
    refine (hfirst.append (ih hrest hothers) ?_).congr fun n => by simp
    rintro m n hm ⟨q, hq, hn⟩
    exact Or.inr ((hr q hq).below (hbelow r m hm) (hbelow q n hn))

end Yields

/-! ## The descents -/

/-- What is found below each child, of all children. -/
theorem yields_children (step : Step) {P : Ref → Ref → Prop} {finds : Ref → List Ref}
    (hbelow : ∀ r n, P r n → s.ClimbsTo n r)
    (h : ∀ c ∈ s.children r, s.Yields step (P c) (finds c)) :
    s.Yields step (fun n => ∃ c ∈ s.children r, P c n) ((s.children r).flatMap finds) :=
  Yields.flatMap (s.pairwise_children r) hbelow h

/-- Neither descent finds anything at or below a text leaf. -/
theorem not_match_at_text (hs : s.IsForest) {n : Ref} (h : s.IsText r) :
    ¬s.ExactMatch step (s.AtOrBelow r) n ∧ ¬s.AnyMatch step (s.AtOrBelow r) n := by
  have hinner : ¬s.IsInner r := fun hr => hr.not_isText h
  have hrejects : ¬s.Accepts step r := fun haccepts => hinner haccepts.isInner
  rw [exactMatch_iff hs, anyMatch_iff_of_not_accepts hs hrejects]
  simp [hinner, hrejects]

theorem isUntagged_iff {node : Node} (hnode : s.node? r = some node) :
    s.IsUntagged r ↔ node.tag = none := by
  simp [IsUntagged, hnode]

theorem yields_exactBelow (hs : s.IsForest) {n : Nat} (hr : s.contains r = true)
    (hn : s.levels ≤ n + s.depth r) :
    s.Yields step (s.ExactMatch step (s.AtOrBelow r)) (s.exactBelow step n [r]) := by
  induction n generalizing r with
  | zero => exact absurd (hs.depth_lt_levels hr) (by omega)
  | succ n ih =>
    obtain ⟨node, hnode⟩ := contains_iff.mp hr
    rw [exactBelow_node hnode]
    cases htext : node.isText with
    | true => exact Yields.nil fun m => (not_match_at_text hs ⟨node, hnode, htext⟩).1
    | false =>
      have hinner : s.IsInner r := ⟨node, hnode, htext⟩
      simp only [Bool.false_eq_true, if_false]
      cases haccept : s.accept? step r with
      | some target =>
        obtain ⟨haccepts, htarget⟩ := (accept?_eq_some_iff hs).mp haccept
        refine (Yields.singleton htarget).congr fun m => ?_
        rw [exactMatch_iff hs]
        simp [haccepts]
      | none =>
        have hrejects := accept?_eq_none_iff.mp haccept
        cases htag : node.tag with
        | some tag =>
          refine Yields.nil fun m => ?_
          rw [exactMatch_iff hs, isUntagged_iff hnode]
          simp [hrejects, htag]
        | none =>
          have hbelow := yields_children step (r := r)
            (P := fun c => s.ExactMatch step (s.AtOrBelow c)) (fun c m hm => hm.1) fun c hc =>
              ih (hs.contains_child hc) (by rw [hs.depth_of_child hc]; omega)
          rw [children_of_node hnode, ← exactBelow_eq_flatMap] at hbelow
          refine hbelow.congr fun m => ?_
          rw [exactMatch_iff hs, isUntagged_iff hnode, children_of_node hnode]
          simp [hrejects, hinner, htag]

theorem yields_anyBelow (hs : s.IsForest) {n : Nat} (hr : s.contains r = true)
    (hn : s.levels ≤ n + s.depth r) :
    s.Yields step (s.AnyMatch step (s.AtOrBelow r)) (s.anyBelow step n [r]) := by
  induction n generalizing r with
  | zero => exact absurd (hs.depth_lt_levels hr) (by omega)
  | succ n ih =>
    obtain ⟨node, hnode⟩ := contains_iff.mp hr
    have hlevels : ∀ c ∈ s.children r, s.levels ≤ n + s.depth c := fun c hc => by
      rw [hs.depth_of_child hc]
      omega
    rw [anyBelow_node hnode]
    cases htext : node.isText with
    | true => exact Yields.nil fun m => (not_match_at_text hs ⟨node, hnode, htext⟩).2
    | false =>
      have hinner : s.IsInner r := ⟨node, hnode, htext⟩
      simp only [Bool.false_eq_true, if_false]
      cases haccept : s.accept? step r with
      | some target =>
        obtain ⟨haccepts, htarget⟩ := (accept?_eq_some_iff hs).mp haccept
        have hbelow := yields_children step (r := r)
          (P := fun c => s.ExactMatch step (s.AtOrBelow c)) (fun c m hm => hm.1) fun c hc =>
            yields_exactBelow hs (hs.contains_child hc) (hlevels c hc)
        rw [children_of_node hnode, ← exactBelow_eq_flatMap] at hbelow
        refine ((Yields.singleton htarget).append hbelow ?_).congr fun m => ?_
        · -- what is below the node comes after it
          rintro m q rfl ⟨c, hc, hq⟩
          rw [← children_of_node hnode] at hc
          obtain ⟨hne, hclimb⟩ := hs.below_iff.mpr ⟨c, hc, hq.1⟩
          exact Or.inl ⟨hne.symm, hclimb⟩
        · rw [anyMatch_iff_of_accepts hs haccepts, children_of_node hnode]
      | none =>
        have hbelow := yields_children step (r := r)
          (P := fun c => s.AnyMatch step (s.AtOrBelow c)) (fun c m hm => hm.1) fun c hc =>
            ih (hs.contains_child hc) (hlevels c hc)
        rw [children_of_node hnode, ← anyBelow_eq_flatMap] at hbelow
        refine hbelow.congr fun m => ?_
        rw [anyMatch_iff_of_not_accepts hs (accept?_eq_none_iff.mp haccept), children_of_node hnode]
        simp [hinner]

/-- At a node that is not there nothing is found. -/
theorem yields_at_dead (hs : s.IsForest) {P : (Ref → Prop) → Ref → Prop}
    (hP : ∀ part n, P part n → part n ∧ s.Accepts step n) (hr : ¬s.contains r = true) :
    s.Yields step (P (s.AtOrBelow r)) [] := by
  refine Yields.nil fun n hn => hr ?_
  obtain ⟨hclimb, haccepts⟩ := hP _ n hn
  exact hs.contains_climbsTo haccepts.isInner.contains hclimb

theorem yields_exact_top (hs : s.IsForest) (step : Step) (top : Ref) :
    s.Yields step (s.ExactMatch step (s.AtOrBelow top)) (s.exactBelow step s.levels [top]) := by
  by_cases htop : s.contains top = true
  · exact yields_exactBelow hs htop (Nat.le_add_right _ _)
  · have hnone : s.exactBelow step s.levels [top] = [] := by
      cases s.levels <;> simp [exactBelow, inner?, node?_eq_none htop]
    rw [hnone]
    exact yields_at_dead hs (fun part n hn => ⟨hn.1, hn.2.1⟩) htop

theorem yields_any_top (hs : s.IsForest) (step : Step) (top : Ref) :
    s.Yields step (s.AnyMatch step (s.AtOrBelow top)) (s.anyBelow step s.levels [top]) := by
  by_cases htop : s.contains top = true
  · exact yields_anyBelow hs htop (Nat.le_add_right _ _)
  · have hnone : s.anyBelow step s.levels [top] = [] := by
      cases s.levels <;> simp [anyBelow, inner?, node?_eq_none htop]
    rw [hnone]
    exact yields_at_dead hs (fun part n hn => ⟨hn.1, hn.2.1⟩) htop

/-- What the nodes are found as that are asked for in each part, part after part. -/
def YieldsAll (s : Scene) (step : Step) (parts : List (Ref → Prop)) (found : List Ref) : Prop :=
  ∃ nodes, List.Forall₂ s.Lists parts nodes ∧ List.Forall₂ (s.IsFoundAs step) nodes.flatten found

theorem Yields.all {P : Ref → Prop} {found : List Ref} (h : s.Yields step P found) :
    s.YieldsAll step [P] found := by
  obtain ⟨nodes, hlists, htargets⟩ := h
  refine ⟨[nodes], .cons hlists .nil, ?_⟩
  rwa [List.flatten_singleton]

theorem yieldsAll_flatMap {tops : List Ref} {P : Ref → Ref → Prop} {finds : Ref → List Ref}
    (h : ∀ top ∈ tops, s.Yields step (P top) (finds top)) :
    s.YieldsAll step (tops.map P) (tops.flatMap finds) := by
  induction tops with
  | nil => exact ⟨[], .nil, .nil⟩
  | cons top rest ih =>
    obtain ⟨⟨first, hfirst, htargets⟩, hrest⟩ := List.forall_mem_cons.mp h
    obtain ⟨nodes, hlists, hothers⟩ := ih hrest
    exact ⟨first :: nodes, .cons hfirst hlists, List.rel_append htargets hothers⟩

end Scene

/-! ## From a starting point -/

namespace Area

variable {a : Area} {step : Step}

/-- The parts of the scene below a starting point. Above the area these are the top nodes with what is
below them, in the order in which they are listed, also where one is listed twice or below another. -/
def parts (a : Area) : Origin → List (Ref → Prop)
  | .above => a.tops.map a.scene.AtOrBelow
  | .node r => [a.scene.Below r]

/-- What a descent finds from each child of a starting point, it finds in the parts below that point. -/
theorem yieldsAll_parts {P : (Ref → Prop) → Ref → Prop} {finds : Ref → List Ref}
    (hpart : ∀ part n, P part n → part n)
    (hsplit : ∀ r n, P (a.scene.Below r) n ↔
      ∃ c ∈ a.scene.children r, P (a.scene.AtOrBelow c) n)
    (h : ∀ c, a.scene.Yields step (P (a.scene.AtOrBelow c)) (finds c)) (origin : Origin) :
    a.scene.YieldsAll step ((a.parts origin).map P) ((a.children origin).flatMap finds) := by
  cases origin with
  | above =>
    rw [parts, List.map_map]
    exact Scene.yieldsAll_flatMap fun top _ => h top
  | node r =>
    have hchildren := Scene.yields_children step (r := r) (P := fun c => P (a.scene.AtOrBelow c))
      (fun c n hn => hpart _ n hn) fun c _ => h c
    exact (hchildren.congr fun n => (hsplit r n).symm).all

theorem yieldsAll_exact (ha : a.scene.IsForest) (hmode : step.mode = .exact) (origin : Origin) :
    a.scene.YieldsAll step ((a.parts origin).map (a.scene.ExactMatch step))
      (a.descend step origin) := by
  unfold descend
  rw [hmode]
  show a.scene.YieldsAll step _ (a.scene.exactBelow step a.scene.levels (a.children origin))
  rw [Scene.exactBelow_eq_flatMap]
  exact yieldsAll_parts (fun _ _ hn => hn.1) (fun _ _ => Scene.exactMatch_below_iff ha)
    (Scene.yields_exact_top ha step) origin

theorem yieldsAll_any (ha : a.scene.IsForest) (hmode : step.mode = .any) (origin : Origin) :
    a.scene.YieldsAll step ((a.parts origin).map (a.scene.AnyMatch step))
      (a.descend step origin) := by
  unfold descend
  rw [hmode]
  show a.scene.YieldsAll step _ (a.scene.anyBelow step a.scene.levels (a.children origin))
  rw [Scene.anyBelow_eq_flatMap]
  exact yieldsAll_parts (fun _ _ hn => hn.1) (fun _ _ => Scene.anyMatch_below_iff ha)
    (Scene.yields_any_top ha step) origin

/-- **A downward step finds, in each part below its starting point, the nodes that match, all of them,
each once and in pre-order; and each is found as itself or, through a text filter, as the nearest element
at or above it.** -/
theorem descend_targets (ha : a.scene.IsForest) (step : Step) (origin : Origin) :
    (step.mode = .exact →
      a.scene.YieldsAll step ((a.parts origin).map (a.scene.ExactMatch step))
        (a.descend step origin)) ∧
    (step.mode = .any →
      a.scene.YieldsAll step ((a.parts origin).map (a.scene.AnyMatch step))
        (a.descend step origin)) :=
  ⟨fun hmode => yieldsAll_exact ha hmode origin, fun hmode => yieldsAll_any ha hmode origin⟩

/-- A row in a wrapper, with a row in a wrapper and a row in a group below it, and a group with a row that
has a text. The text is found at the group, once for each of two top nodes that the row is below. -/
theorem descend_targets_rows :
    let row : List Snapshot → Snapshot := .node { tag := some "row" }
    let group : Label := { tag := some "group", element := some {} }
    let rows := row [.node {} [row []], .node group [row []]]
    let labelled := Snapshot.node group [row [.node { text := some "hi" } []]]
    let roots := [("main", Snapshot.node { tag := some "panel" } [.node {} [rows], labelled])]
    let s := (Scene.ofSnapshots roots).toOption.getD {}
    let a : Area := ⟨s, [⟨0⟩, ⟨7⟩]⟩
    let next : Step := { tag := some (.named "row") }
    let all : Step := { next with mode := .any }
    let text : Step := { all with filters := [.text ⟨.equal, "hi"⟩] }
    s.IsForest ∧
      a.descend next (.node ⟨0⟩) = [⟨2⟩] ∧
      s.YieldsAll next ((a.parts (.node ⟨0⟩)).map (s.ExactMatch next)) [⟨2⟩] ∧
      a.descend all (.node ⟨0⟩) = [⟨2⟩, ⟨4⟩, ⟨8⟩] ∧
      s.YieldsAll all ((a.parts (.node ⟨0⟩)).map (s.AnyMatch all)) [⟨2⟩, ⟨4⟩, ⟨8⟩] ∧
      a.descend text .above = [⟨7⟩, ⟨7⟩] ∧
      s.YieldsAll text ((a.parts .above).map (s.AnyMatch text)) [⟨7⟩, ⟨7⟩] := by
  intro row group rows labelled roots s a next all text
  have hs : s.IsForest := Scene.isForest_ofSnapshots roots
  have hnext : a.descend next (.node ⟨0⟩) = [⟨2⟩] := by decide +kernel
  have hall : a.descend all (.node ⟨0⟩) = [⟨2⟩, ⟨4⟩, ⟨8⟩] := by decide +kernel
  have htext : a.descend text .above = [⟨7⟩, ⟨7⟩] := by decide +kernel
  -- from here on it does not matter how the scene was made
  clear_value s
  have hlisted := (descend_targets (a := a) hs next (.node ⟨0⟩)).1 rfl
  have hlistedAll := (descend_targets (a := a) hs all (.node ⟨0⟩)).2 rfl
  have hlistedText := (descend_targets (a := a) hs text .above).2 rfl
  rw [hnext] at hlisted
  rw [hall] at hlistedAll
  rw [htext] at hlistedText
  exact ⟨hs, hnext, hlisted, hall, hlistedAll, htext, hlistedText⟩

end Area

end SceneSelect
