import SceneSelect.Proofs.Scene.Edits
import SceneSelect.Proofs.Scene.Levels
import SceneSelect.Scene.Values

/-!
# `Proofs/Scene/Context.lean` — context is scoped lexically

A context lookup takes the whole way up from a node and answers with the first entry on it. In a forest
that is a recursion over parents: the entry of the node itself, and if there is none, what its parent
sees (`IsForest.context?_eq`). So two lookups can be compared one parent at a time, and
`IsForest.induction_above` is the induction for it.

An entry at a node is seen from the nodes at or below it, up to those that have one of their own in
between. `Sees` says this without a lookup, by the nodes on the way up. Putting an entry at a node changes
no link, so the ways up are as before, and only one place on them holds something else:

> **the entry is what is found from exactly the nodes that see the place, and every other lookup, of any
> name and from any reference, finds what it found before** (`context?_putContext`).
-/

set_option autoImplicit false

namespace SceneSelect.Scene

variable {s : Scene} {a r : Ref} {name : String}

/-! ## Lookup as a recursion -/

theorem ownContext?_of_dead (hr : ¬s.contains r = true) : s.ownContext? name r = none := by
  rw [ownContext?, node?_eq_none hr]
  rfl

/-- A node sees its own entry, or else what its parent sees. -/
theorem IsForest.context?_eq (hs : s.IsForest) (r : Ref) (name : String) :
    s.context? r name =
      (s.ownContext? name r).or ((s.parent? r).bind fun p => s.context? p name) := by
  by_cases hr : s.contains r = true
  · rw [context?, if_pos hr, selfAndAncestors]
    cases hp : s.parent? r with
    | none =>
      rw [ancestors_of_root hp]
      cases hown : s.ownContext? name r <;> simp [hown]
    | some p =>
      rw [hs.ancestors_of_parent hp, Option.bind_some, context?, if_pos (hs.contains_parent hp),
        selfAndAncestors]
      cases hown : s.ownContext? name r <;> simp [hown]
  · have hp : s.parent? r = none := by
      by_contra hne
      obtain ⟨p, hp⟩ := Option.ne_none_iff_exists'.mp hne
      exact hr (contains_of_parent hp)
    rw [context?, if_neg hr, ownContext?_of_dead hr, hp]
    rfl

/-! ## Scope -/

/-- From the node the place `a` is seen under the name: the node is at or below it, and no node on the
way up there has an entry of its own. Whether there is one at `a` itself makes no difference. -/
structure Sees (s : Scene) (name : String) (r a : Ref) : Prop where
  below : s.ClimbsTo r a
  unshadowed : ∀ q, s.ClimbsTo r q → s.ClimbsTo q a → q ≠ a → s.ownContext? name q = none

/-- The same, one parent at a time. -/
theorem IsForest.sees_iff (hs : s.IsForest) :
    s.Sees name r a ↔
      r = a ∨ s.ownContext? name r = none ∧ ∃ p, s.parent? r = some p ∧ s.Sees name p a := by
  constructor
  · intro h
    rcases Relation.ReflTransGen.cases_head h.below with heq | ⟨p, hp, hrest⟩
    · exact Or.inl heq
    · by_cases hra : r = a
      · exact Or.inl hra
      · refine Or.inr ⟨h.unshadowed r .refl h.below hra, p, hp, hrest, ?_⟩
        exact fun q hpq hqa hne => h.unshadowed q (.head hp hpq) hqa hne
  · rintro (rfl | ⟨hown, p, hp, h⟩)
    · exact ⟨.refl, fun q hrq hqr hne => absurd (hs.climbsTo_antisymm hqr hrq) hne⟩
    · refine ⟨.head hp h.below, fun q hrq hqa hne => ?_⟩
      rcases Relation.ReflTransGen.cases_head hrq with rfl | ⟨p', hp', hrest⟩
      · exact hown
      · obtain rfl := Option.some.inj (hp.symm.trans hp')
        exact h.unshadowed q hrest hqa hne

/-! ## Putting an entry -/

/-- The scene with an entry put into the context of a node. -/
def putContext (s : Scene) (a : Ref) (name : String) (value : Json.Value) : Scene :=
  (s.relabel a { context := [(name, value)] }).2

theorem parent?_putContext (s : Scene) (a : Ref) (name : String) (value : Json.Value) :
    (s.putContext a name value).parent? = s.parent? :=
  funext (parent_modify fun _ => rfl)

theorem isForest_putContext (hs : s.IsForest) (a : Ref) (name : String) (value : Json.Value) :
    (s.putContext a name value).IsForest :=
  hs.modify_label a (fun _ => rfl) fun _ => rfl

theorem ownContext?_putContext (ha : s.contains a = true) (name : String) (value : Json.Value)
    (other : String) (r : Ref) :
    (s.putContext a name value).ownContext? other r =
      if r = a ∧ other = name then some value else s.ownContext? other r := by
  have hnode : (s.putContext a name value).node? r = _ := node?_modify s a r _
  rw [ownContext?, hnode]
  by_cases hra : r = a
  · subst hra
    obtain ⟨node, hnode⟩ := contains_iff.mp ha
    rw [if_pos rfl, ownContext?, hnode]
    simp only [true_and]
    exact Json.Members.get?_put node.context name other value
  · rw [if_neg hra, if_neg fun h => hra h.1]
    rfl

/-- Where the place is seen the entry is found, whatever was there before. -/
theorem context?_putContext_of_sees (hs : s.IsForest) (ha : s.contains a = true)
    {value : Json.Value} (h : s.Sees name r a) :
    (s.putContext a name value).context? r name = some value := by
  have ht := isForest_putContext hs a name value
  induction r using hs.induction_above with
  | step r ih =>
    rw [ht.context?_eq, ownContext?_putContext ha]
    by_cases hra : r = a
    · rw [if_pos ⟨hra, rfl⟩, Option.some_or]
    · obtain ⟨hown, p, hp, hsees⟩ := (hs.sees_iff.mp h).resolve_left hra
      rw [if_neg fun hat => hra hat.1, hown, Option.none_or, parent?_putContext, hp]
      exact ih p hp hsees

theorem context?_putContext_of_not_sees (hs : s.IsForest) (ha : s.contains a = true)
    {value : Json.Value} {other : String} (h : ¬(other = name ∧ s.Sees name r a)) :
    (s.putContext a name value).context? r other = s.context? r other := by
  have ht := isForest_putContext hs a name value
  induction r using hs.induction_above with
  | step r ih =>
    have hnot : ¬(r = a ∧ other = name) := fun hat => h ⟨hat.2, hs.sees_iff.mpr (Or.inl hat.1)⟩
    rw [ht.context?_eq, hs.context?_eq, ownContext?_putContext ha, if_neg hnot, parent?_putContext]
    cases hown : s.ownContext? other r with
    | some found => rfl
    | none =>
      cases hp : s.parent? r with
      | none => rfl
      | some p =>
        -- the node lets the name through, so its parent does not see the place either
        refine ih p hp fun hsees => h ⟨hsees.1, hs.sees_iff.mpr (Or.inr ⟨?_, p, hp, hsees.2⟩)⟩
        rw [← hsees.1, hown]

/-- **After an entry is put at a node, every node that sees the place finds it, and every other lookup finds
what it found before.** -/
theorem context?_putContext (hs : s.IsForest) (ha : s.contains a = true) (name : String)
    (value : Json.Value) :
    (∀ r, s.Sees name r a → (s.putContext a name value).context? r name = some value) ∧
      ∀ r other, ¬(other = name ∧ s.Sees name r a) →
        (s.putContext a name value).context? r other = s.context? r other :=
  ⟨fun _ => context?_putContext_of_sees hs ha, fun _ _ => context?_putContext_of_not_sees hs ha⟩

/-- The entry takes the place of another. It is not seen from below an entry that is `null`, nor from
above, and another name is left alone. -/
theorem context?_putContext_theme :
    let light : Label := { context := [("theme", .str "light")] }
    let hidden : Label := { context := [("theme", .null)] }
    let roots := [("main", Snapshot.node {}
      [.node light [.node {} [.node hidden [.node {} []]]]])]
    let s := (Scene.ofSnapshots roots).toOption.getD {}
    let t := s.putContext ⟨1⟩ "theme" (.str "dark")
    s.IsForest ∧ s.contains ⟨1⟩ = true ∧ s.Sees "theme" ⟨2⟩ ⟨1⟩ ∧ ¬s.Sees "theme" ⟨4⟩ ⟨1⟩ ∧
      t.context? ⟨2⟩ "theme" = some (.str "dark") ∧ t.context? ⟨4⟩ "theme" = some .null ∧
      t.context? ⟨0⟩ "theme" = none ∧ ∀ r, t.context? r "lang" = s.context? r "lang" := by
  intro light hidden roots s t
  have hs : s.IsForest := isForest_ofSnapshots roots
  have ha : s.contains ⟨1⟩ = true := by decide +kernel
  have hroot : s.parent? ⟨0⟩ = none ∧ s.ownContext? "theme" ⟨0⟩ = none := by decide +kernel
  have hbelow : s.parent? ⟨2⟩ = some ⟨1⟩ ∧ s.ownContext? "theme" ⟨2⟩ = none := by decide +kernel
  have hparent : s.parent? ⟨3⟩ = some ⟨2⟩ := by decide +kernel
  have hnull : s.ownContext? "theme" ⟨3⟩ = some .null := by
    subst s roots hidden light
    rfl
  have hlast : s.parent? ⟨4⟩ = some ⟨3⟩ ∧ s.ownContext? "theme" ⟨4⟩ = none := by decide +kernel
  -- from here on it does not matter how the scene was made
  clear_value s
  have hsees : s.Sees "theme" ⟨2⟩ ⟨1⟩ :=
    hs.sees_iff.mpr (Or.inr ⟨hbelow.2, ⟨1⟩, hbelow.1, hs.sees_iff.mpr (Or.inl rfl)⟩)
  have hshadow : ¬s.Sees "theme" ⟨4⟩ ⟨1⟩ := by
    intro h
    have hclimb : s.ClimbsTo ⟨3⟩ ⟨1⟩ := .head hparent (.single hbelow.1)
    have hown := h.unshadowed ⟨3⟩ (.single hlast.1) hclimb (by decide)
    exact absurd (hown.symm.trans hnull) (by simp)
  have habove : ¬s.Sees "theme" ⟨0⟩ ⟨1⟩ := by
    intro h
    obtain ⟨-, p, hp, -⟩ := (hs.sees_iff.mp h).resolve_left (by decide)
    exact absurd (hroot.1.symm.trans hp) (by simp)
  obtain ⟨hseen, hother⟩ := context?_putContext hs ha "theme" (.str "dark")
  refine ⟨hs, ha, hsees, hshadow, hseen _ hsees, ?_, ?_, ?_⟩
  · rw [hother ⟨4⟩ "theme" fun h => hshadow h.2, hs.context?_eq, hlast.2, hlast.1, Option.none_or,
      Option.bind_some, hs.context?_eq, hnull, Option.some_or]
  · rw [hother ⟨0⟩ "theme" fun h => habove h.2, hs.context?_eq, hroot.2, hroot.1]
    rfl
  · exact fun r => hother r "lang" fun h => absurd h.1 (by decide)

end SceneSelect.Scene
