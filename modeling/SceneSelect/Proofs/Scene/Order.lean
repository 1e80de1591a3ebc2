import SceneSelect.Proofs.Scene.Forest

/-!
# `Proofs/Scene/Order.lean` — below and before

Of two nodes of a forest either one is above the other, or the subtrees they are in stand side by
side, under a common parent or as roots. `Before` is the second relation, read from left to right.
It says of whole subtrees what it says of their tops (`Before.below`), which is all that a search
needs that goes down from several nodes.

The pre-order of the scene, `Precedes`, puts a node before all below it and otherwise follows
`Before`. **It is a strict order of the nodes in which any two of them can be compared**
(`precedes_irrefl`, `precedes_trans`, `precedes_total`).
-/

set_option autoImplicit false

namespace SceneSelect.Scene

variable {s : Scene}

/-! ## Upwards -/

theorem ClimbsTo.parent_of_ne {r stop p : Ref} (h : s.ClimbsTo r stop) (hne : r ≠ stop)
    (hp : s.parent? r = some p) : s.ClimbsTo p stop := by
  obtain heq | ⟨q, hq, hrest⟩ := Relation.ReflTransGen.cases_head h
  · exact absurd heq hne
  · obtain rfl := Option.some.inj (hp.symm.trans hq)
    exact hrest

/-- There is one way up, so of two nodes above a third one is above the other. -/
theorem ClimbsTo.total {r a b : Ref} (ha : s.ClimbsTo r a) (hb : s.ClimbsTo r b) :
    s.ClimbsTo a b ∨ s.ClimbsTo b a :=
  Relation.ReflTransGen.total_of_right_unique
    (fun _ _ _ h h' => Option.some.inj (h.symm.trans h')) ha hb

theorem IsForest.climbsTo_of_child (hs : s.IsForest) {p c : Ref} (hc : c ∈ s.children p) :
    s.ClimbsTo c p :=
  .single (hs.children_live p c hc).2

theorem LeadsTo.climbsTo (hs : s.IsForest) {r c : Ref} (h : s.LeadsTo r c) : s.ClimbsTo c r := by
  induction h with
  | refl => exact .refl
  | tail _ hchild ih => exact (hs.climbsTo_of_child hchild).trans ih

namespace IsForest

/-- The way up does not come back: it ends at a root. -/
theorem acyclic (hs : s.IsForest) {r p : Ref} (hp : s.parent? r = some p) :
    ¬s.ClimbsTo p r := by
  obtain ⟨root, hroot, hclimb⟩ := hs.grounded r (contains_of_parent hp)
  induction hclimb using Relation.ReflTransGen.head_induction_on generalizing p with
  | refl => exact absurd (hp.symm.trans ((hs.mem_roots root).mp hroot).2) (by simp)
  | @head r q hq _ ih =>
    obtain rfl := Option.some.inj (hq.symm.trans hp)
    intro hback
    -- a way back to the node below goes on to the parent, so the parent would have one too
    obtain rfl | ⟨p, hnext, hrest⟩ := Relation.ReflTransGen.cases_head hback
    · exact ih hp .refl
    · exact ih hnext (hrest.tail hp)

theorem climbsTo_antisymm (hs : s.IsForest) {a b : Ref} (hab : s.ClimbsTo a b)
    (hba : s.ClimbsTo b a) : a = b := by
  obtain heq | ⟨p, hp, hrest⟩ := Relation.ReflTransGen.cases_head hab
  · exact heq
  · exact absurd (hrest.trans hba) (hs.acyclic hp)

theorem mem_children (hs : s.IsForest) {p c : Ref} (hp : s.parent? c = some p) :
    c ∈ s.children p :=
  List.count_pos_iff.mp (Nat.lt_of_lt_of_eq Nat.one_pos (hs.listed_once c p hp).1.symm)

theorem children_nodup (hs : s.IsForest) (p : Ref) : (s.children p).Nodup := by
  rw [List.nodup_iff_count_le_one]
  intro c
  by_cases hc : c ∈ s.children p
  · exact Nat.le_of_eq (hs.listed_once c p (hs.children_live p c hc).2).1
  · rw [List.count_eq_zero_of_not_mem hc]
    exact Nat.zero_le 1

theorem eq_of_climbsTo_roots (hs : s.IsForest) {r root root' : Ref} (hroot : root ∈ s.rootRefs)
    (hroot' : root' ∈ s.rootRefs) (h : s.ClimbsTo r root) (h' : s.ClimbsTo r root') :
    root = root' := by
  have top : ∀ {x y}, x ∈ s.rootRefs → s.ClimbsTo x y → x = y := by
    intro x y hx hxy
    obtain heq | ⟨p, hp, -⟩ := Relation.ReflTransGen.cases_head hxy
    · exact heq
    · exact absurd (((hs.mem_roots x).mp hx).2.symm.trans hp) (by simp)
  rcases h.total h' with habove | habove
  · exact top hroot habove
  · exact (top hroot' habove).symm

theorem linked (hs : s.IsForest) (harena : s.nodes.WellFormed) : Linked s [] where
  arena := harena
  mem_children {p c} := by
    rw [and_iff_left List.not_mem_nil]
    exact ⟨fun hc => (hs.children_live p c hc).2, hs.mem_children⟩
  mem_roots {r} := by
    rw [and_iff_left List.not_mem_nil]
    exact hs.mem_roots r
  children_nodup := hs.children_nodup
  roots_nodup := hs.roots_once
  keys_nodup := hs.keys_distinct
  pending_nodup := List.nodup_nil
  pending_live h := absurd h List.not_mem_nil
  grounded {r} hr := by
    obtain ⟨root, hroot, hclimb⟩ := hs.grounded r hr
    exact ⟨root, hclimb, Or.inl hroot⟩

end IsForest

/-! ## Side by side -/

/-- The two stand on one list, of children or of roots, in this order. -/
def Beside (s : Scene) (c d : Ref) : Prop :=
  [c, d].Sublist s.rootRefs ∨ ∃ p, [c, d].Sublist (s.children p)

/-- The subtrees of the two are apart, and the first comes first. -/
def Before (s : Scene) (a b : Ref) : Prop :=
  ∃ c d, s.Beside c d ∧ s.ClimbsTo a c ∧ s.ClimbsTo b d

/-- The pre-order of the scene. -/
def Precedes (s : Scene) (a b : Ref) : Prop := (a ≠ b ∧ s.ClimbsTo b a) ∨ s.Before a b

theorem Before.below {a b a' b' : Ref} (h : s.Before a b) (ha : s.ClimbsTo a' a)
    (hb : s.ClimbsTo b' b) : s.Before a' b' := by
  obtain ⟨c, d, hcd, hac, hbd⟩ := h
  exact ⟨c, d, hcd, ha.trans hac, hb.trans hbd⟩

theorem pairwise_children (s : Scene) (p : Ref) : (s.children p).Pairwise s.Before :=
  List.pairwise_iff_forall_sublist.mpr fun h => ⟨_, _, Or.inr ⟨p, h⟩, .refl, .refl⟩

theorem pairwise_roots (s : Scene) : s.rootRefs.Pairwise s.Before :=
  List.pairwise_iff_forall_sublist.mpr fun h => ⟨_, _, Or.inl h, .refl, .refl⟩

namespace IsForest

theorem beside_parent (hs : s.IsForest) {c d : Ref} (h : s.Beside c d) :
    c ≠ d ∧ s.parent? c = s.parent? d := by
  rcases h with hroots | ⟨p, hchildren⟩
  · have hc := (hs.mem_roots c).mp (hroots.subset (by simp))
    have hd := (hs.mem_roots d).mp (hroots.subset (by simp))
    exact ⟨by simpa using hs.roots_once.sublist hroots, hc.2.trans hd.2.symm⟩
  · have hc := hs.children_live p c (hchildren.subset (by simp))
    have hd := hs.children_live p d (hchildren.subset (by simp))
    exact ⟨by simpa using (hs.children_nodup p).sublist hchildren, hc.2.trans hd.2.symm⟩

theorem not_climbsTo_of_siblings (hs : s.IsForest) {c d : Ref} (hne : c ≠ d)
    (hparent : s.parent? c = s.parent? d) : ¬s.ClimbsTo c d := by
  intro hcd
  obtain heq | ⟨p, hp, hrest⟩ := Relation.ReflTransGen.cases_head hcd
  · exact hne heq
  · exact hs.acyclic (hparent ▸ hp) hrest

/-- Nothing is in two subtrees that stand side by side. -/
theorem beside_disjoint (hs : s.IsForest) {c d r : Ref} (h : s.Beside c d)
    (hc : s.ClimbsTo r c) (hd : s.ClimbsTo r d) : False := by
  obtain ⟨hne, hparent⟩ := hs.beside_parent h
  rcases hc.total hd with hcd | hdc
  · exact hs.not_climbsTo_of_siblings hne hparent hcd
  · exact hs.not_climbsTo_of_siblings hne.symm hparent.symm hdc

/-! ## The pre-order -/

theorem precedes_irrefl (hs : s.IsForest) (a : Ref) : ¬s.Precedes a a := by
  rintro (⟨hne, -⟩ | ⟨c, d, hcd, hac, had⟩)
  · exact hne rfl
  · exact hs.beside_disjoint hcd hac had

/-- A node is before another, or is it, when the other is below. -/
theorem eq_or_precedes {a b : Ref} (h : s.ClimbsTo b a) : a = b ∨ s.Precedes a b := by
  by_cases heq : a = b
  · exact Or.inl heq
  · exact Or.inr (Or.inl ⟨heq, h⟩)

theorem sublist_trans {l : List Ref} (hl : l.Nodup) {a b c : Ref} (hab : [a, b].Sublist l)
    (hbc : [b, c].Sublist l) : [a, c].Sublist l := by
  induction l with
  | nil => exact absurd hab (by simp)
  | cons x rest ih =>
    obtain ⟨hx, hrest⟩ := List.nodup_cons.mp hl
    cases hab with
    | cons _ hab =>
      have hb : b ∈ rest := hab.subset (by simp)
      cases hbc with
      | cons _ hbc => exact .cons _ (ih hrest hab hbc)
      | cons_cons _ _ => exact absurd hb hx
    | cons_cons _ hb =>
      have hb : b ∈ rest := List.singleton_sublist.mp hb
      cases hbc with
      | cons _ hbc => exact .cons_cons _ (List.singleton_sublist.mpr (hbc.subset (by simp)))
      | cons_cons _ _ => exact absurd hb hx

theorem beside_trans (hs : s.IsForest) {c d e : Ref} (hcd : s.Beside c d) (hde : s.Beside d e) :
    s.Beside c e := by
  rcases hcd with hcd | ⟨p, hcd⟩ <;> rcases hde with hde | ⟨q, hde⟩
  · exact Or.inl (sublist_trans hs.roots_once hcd hde)
  · have hd := ((hs.mem_roots d).mp (hcd.subset (by simp))).2
    exact absurd (hd.symm.trans (hs.children_live q d (hde.subset (by simp))).2) (by simp)
  · have hd := ((hs.mem_roots d).mp (hde.subset (by simp))).2
    exact absurd (hd.symm.trans (hs.children_live p d (hcd.subset (by simp))).2) (by simp)
  · have hp := (hs.children_live p d (hcd.subset (by simp))).2
    have hq := (hs.children_live q d (hde.subset (by simp))).2
    obtain rfl := Option.some.inj (hp.symm.trans hq)
    exact Or.inr ⟨p, sublist_trans (hs.children_nodup p) hcd hde⟩

/-- What is above one of two nodes with the same parent, and is not that node, is above both. -/
theorem eq_or_climbsTo_of_siblings {c d r : Ref} (hparent : s.parent? c = s.parent? d)
    (hc : s.ClimbsTo c r) : c = r ∨ s.ClimbsTo d r := by
  obtain heq | ⟨p, hp, hrest⟩ := Relation.ReflTransGen.cases_head hc
  · exact Or.inl heq
  · exact Or.inr (.head (hparent ▸ hp) hrest)

theorem before_trans (hs : s.IsForest) {a b c : Ref} (hab : s.Before a b) (hbc : s.Before b c) :
    s.Before a c := by
  obtain ⟨a₁, b₁, h₁, ha, hb₁⟩ := hab
  obtain ⟨b₂, c₂, h₂, hb₂, hc⟩ := hbc
  have hparent₁ := (hs.beside_parent h₁).2
  have hparent₂ := (hs.beside_parent h₂).2
  -- the middle node is in two subtrees, so one of these is inside the other
  rcases hb₁.total hb₂ with hinner | hinner
  · rcases eq_or_climbsTo_of_siblings hparent₁.symm hinner with rfl | houter
    · exact ⟨a₁, c₂, hs.beside_trans h₁ h₂, ha, hc⟩
    · exact ⟨b₂, c₂, h₂, ha.trans houter, hc⟩
  · rcases eq_or_climbsTo_of_siblings hparent₂ hinner with rfl | houter
    · exact ⟨a₁, c₂, hs.beside_trans h₁ h₂, ha, hc⟩
    · exact ⟨a₁, b₁, h₁, ha, hc.trans houter⟩

theorem precedes_trans (hs : s.IsForest) {a b c : Ref} (hab : s.Precedes a b)
    (hbc : s.Precedes b c) : s.Precedes a c := by
  rcases hab with ⟨hne, hba⟩ | hab
  · rcases hbc with ⟨-, hcb⟩ | hbc
    · refine Or.inl ⟨?_, hcb.trans hba⟩
      rintro rfl
      exact hne (hs.climbsTo_antisymm hcb hba)
    · obtain ⟨b', c', hbeside, hb, hc⟩ := hbc
      rcases hba.total hb with hab' | hba'
      · exact Or.inr ⟨b', c', hbeside, hab', hc⟩
      · rcases eq_or_climbsTo_of_siblings (hs.beside_parent hbeside).2 hba' with rfl | hca
        · exact Or.inr ⟨b', c', hbeside, .refl, hc⟩
        · refine Or.inl ⟨?_, hc.trans hca⟩
          rintro rfl
          exact hs.beside_disjoint hbeside hb (hba.trans hc)
  · rcases hbc with ⟨-, hcb⟩ | hbc
    · exact Or.inr (hab.below .refl hcb)
    · exact Or.inr (hs.before_trans hab hbc)

theorem sublist_or_sublist {l : List Ref} {a b : Ref} (ha : a ∈ l) (hb : b ∈ l) (hne : a ≠ b) :
    [a, b].Sublist l ∨ [b, a].Sublist l := by
  induction l with
  | nil => exact absurd ha (by simp)
  | cons x rest ih =>
    rcases List.mem_cons.mp ha with rfl | ha
    · have hb := (List.mem_cons.mp hb).resolve_left hne.symm
      exact Or.inl (.cons_cons _ (List.singleton_sublist.mpr hb))
    · rcases List.mem_cons.mp hb with heq | hb
      · exact Or.inr (heq ▸ .cons_cons _ (List.singleton_sublist.mpr ha))
      · exact (ih ha hb).imp (.cons _) (.cons _)

/-- Two nodes on one list are in order, whichever way round, and so is what is below them. -/
theorem precedes_of_listed {c d a b : Ref}
    (hlist : (c ∈ s.rootRefs ∧ d ∈ s.rootRefs) ∨ ∃ p, c ∈ s.children p ∧ d ∈ s.children p)
    (hne : c ≠ d) (ha : s.ClimbsTo a c) (hb : s.ClimbsTo b d) :
    s.Precedes a b ∨ s.Precedes b a := by
  have hbeside : s.Beside c d ∨ s.Beside d c := by
    rcases hlist with ⟨hc, hd⟩ | ⟨p, hc, hd⟩
    · exact (sublist_or_sublist hc hd hne).imp Or.inl Or.inl
    · exact (sublist_or_sublist hc hd hne).imp (fun h => Or.inr ⟨p, h⟩) fun h => Or.inr ⟨p, h⟩
  rcases hbeside with h | h
  · exact Or.inl (Or.inr ⟨c, d, h, ha, hb⟩)
  · exact Or.inr (Or.inr ⟨d, c, h, hb, ha⟩)

theorem precedes_total (hs : s.IsForest) {a b : Ref} (ha : s.contains a = true)
    (hb : s.contains b = true) : a = b ∨ s.Precedes a b ∨ s.Precedes b a := by
  obtain ⟨root, hroot, hclimb⟩ := hs.grounded a ha
  obtain ⟨root', hroot', hclimb'⟩ := hs.grounded b hb
  by_cases hsame : root = root'
  · subst hsame
    -- on the way up from the first node there is one that is above the second, at the latest the
    -- common root
    induction hclimb using Relation.ReflTransGen.head_induction_on with
    | refl => exact (eq_or_precedes hclimb').imp_right Or.inl
    | @head a p hp _ ih =>
      have hap : s.ClimbsTo a p := .single hp
      have hlive : s.contains p = true := contains_of_child (hs.mem_children hp)
      rcases ih hlive with rfl | (⟨hne, hbp⟩ | hpb) | (⟨-, hpb⟩ | hbp)
      · exact (eq_or_precedes hap).imp Eq.symm Or.inr
      · obtain heq | ⟨c, hbc, hc⟩ := Relation.ReflTransGen.cases_tail hbp
        · exact absurd heq hne
        · by_cases hac : a = c
          · exact (eq_or_precedes (hac ▸ hbc)).imp_right Or.inl
          · have hlisted : ∃ p, a ∈ s.children p ∧ c ∈ s.children p :=
              ⟨p, hs.mem_children hp, hs.mem_children hc⟩
            exact Or.inr (precedes_of_listed (Or.inr hlisted) hac .refl hbc)
      · exact Or.inr (Or.inl (Or.inr (hpb.below hap .refl)))
      · exact (eq_or_precedes (hap.trans hpb)).imp Eq.symm Or.inr
      · exact Or.inr (Or.inr (Or.inr (hbp.below .refl hap)))
  · exact Or.inr (precedes_of_listed (Or.inl ⟨hroot, hroot'⟩) hsame hclimb hclimb')

end IsForest

end SceneSelect.Scene
