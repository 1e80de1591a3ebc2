import SceneSelect.Proofs.Scene.Edits

/-!
# `Proofs/Scene/Leaves.lean` — text leaves have nothing below them

Nothing in an arena keeps a node with a text from having children. What keeps it is how scenes are made:
a snapshot of a text leaf that lists children is refused, and a scene that comes from snapshots and grows
below structured nodes only never gets a child under a text leaf. `Tidy` is this promise beside that of
the links, and **it holds after any number of such edits** (`tidy_editAll`).

The one place where this takes an argument is a snapshot with children. They are placed below the node
that was just made for it, and that node must still be structured when the last of them comes; so each
step also keeps structured nodes what they are (`GrowsTo`).
-/

set_option autoImplicit false

namespace SceneSelect

namespace Scene

variable {s t : Scene} {r p : Ref}

/-- There is a text leaf here. -/
def IsText (s : Scene) (r : Ref) : Prop := ∃ node, s.node? r = some node ∧ node.isText = true

/-- There is a structured node here. -/
def IsInner (s : Scene) (r : Ref) : Prop := ∃ node, s.node? r = some node ∧ node.isText = false

/-- Text leaves have no children. -/
def BareLeaves (s : Scene) : Prop := ∀ r, s.IsText r → s.children r = []

instance (s : Scene) (r : Ref) : Decidable (s.IsText r) :=
  decidable_of_iff ((s.node? r).any fun n => n.isText) (Option.any_eq_true _ _)

instance (s : Scene) (r : Ref) : Decidable (s.IsInner r) :=
  decidable_of_iff (∃ node ∈ s.node? r, node.isText = false) Iff.rfl

theorem IsInner.contains (h : s.IsInner r) : s.contains r = true := by
  obtain ⟨node, hnode, -⟩ := h
  exact contains_iff.mpr ⟨node, hnode⟩

theorem IsInner.not_isText (h : s.IsInner r) : ¬s.IsText r := by
  rintro ⟨node, hnode, htext⟩
  obtain ⟨node', hnode', hinner⟩ := h
  obtain rfl := Option.some.inj (hnode.symm.trans hnode')
  exact absurd (htext.symm.trans hinner) (by simp)

theorem isInner_of_contains (hr : s.contains r = true) (h : ¬s.IsText r) : s.IsInner r := by
  obtain ⟨node, hnode⟩ := contains_iff.mp hr
  refine ⟨node, hnode, ?_⟩
  by_contra htext
  rw [Bool.not_eq_false] at htext
  exact h ⟨node, hnode, htext⟩

/-- What has a child is structured. -/
theorem BareLeaves.isInner (h : s.BareLeaves) {c : Ref} (hc : c ∈ s.children p) : s.IsInner p := by
  refine isInner_of_contains (contains_of_child hc) fun htext => ?_
  rw [h p htext] at hc
  exact absurd hc List.not_mem_nil

/-! ## Changes to one node -/

theorem isText_congr (h : t.node? r = s.node? r) : t.IsText r ↔ s.IsText r := by
  rw [IsText, IsText, h]

theorem isInner_congr (h : t.node? r = s.node? r) : t.IsInner r ↔ s.IsInner r := by
  rw [IsInner, IsInner, h]

theorem BareLeaves.agreeOff (h : s.BareLeaves) (hoff : AgreeOff s t r)
    (hr : t.IsText r → t.children r = []) : t.BareLeaves := by
  intro q hq
  by_cases heq : q = r
  · exact heq ▸ hr (heq ▸ hq)
  · rw [hoff.children heq]
    exact h q ((isText_congr (hoff q heq)).mp hq)

section Modify

variable {change : Node → Node}

theorem isInner_modify (h : ∀ n, (change n).isText = n.isText) (hr : s.IsInner r) :
    (s.withNodes (s.nodes.modify p change)).IsInner r := by
  obtain ⟨node, hnode, hinner⟩ := hr
  by_cases heq : r = p
  · refine ⟨change node, ?_, (h node).trans hinner⟩
    rw [node?_modify, if_pos heq, hnode]
    rfl
  · exact ⟨node, (agreeOff_modify s p change r heq).trans hnode, hinner⟩

/-- A change of a node that gives a text leaf no children. -/
theorem BareLeaves.modify (h : s.BareLeaves)
    (hp : ∀ node, s.node? p = some node → (change node).isText = true → (change node).children = []) :
    (s.withNodes (s.nodes.modify p change)).BareLeaves := by
  refine h.agreeOff (agreeOff_modify s p change) ?_
  rintro ⟨changed, hchanged, htext⟩
  rw [children_of_node hchanged]
  rw [node?_modify, if_pos rfl] at hchanged
  obtain ⟨node, hnode, rfl⟩ := Option.map_eq_some_iff.mp hchanged
  exact hp node hnode htext

end Modify

theorem BareLeaves.detach (h : s.BareLeaves) (r : Ref) (parent : Option Ref) :
    (s.detach r parent).BareLeaves := by
  cases parent with
  | none => exact h
  | some p =>
    show (s.withNodes (s.nodes.modify p fun n => n.withoutChild r)).BareLeaves
    refine h.modify fun node hnode htext => ?_
    have hnone : node.children = [] := children_of_node hnode ▸ h p ⟨node, hnode, htext⟩
    show node.children.erase r = []
    rw [hnone]
    rfl

theorem BareLeaves.take (h : s.BareLeaves) (r : Ref) :
    (s.withNodes (s.nodes.remove r).2).BareLeaves := by
  refine h.agreeOff (agreeOff_remove s r) fun htext => ?_
  obtain ⟨node, hnode, -⟩ := htext
  rw [node?_remove, if_pos rfl] at hnode
  exact absurd hnode (by simp)

theorem BareLeaves.remove (h : s.BareLeaves) (r : Ref) : (s.remove r).2.BareLeaves :=
  remove_keeps (fun _ h r => h.detach r _) (fun _ h => h.take) h r

theorem BareLeaves.insert (h : s.BareLeaves) (harena : s.nodes.WellFormed) (node : Node)
    (hleaf : node.children = []) : (s.withNodes (s.nodes.insert node).2).BareLeaves := by
  refine h.agreeOff (agreeOff_insert harena node) fun _ => ?_
  rw [children_of_node (node?_insert_self harena node), hleaf]

/-! ## Scenes -/

/-- The links agree, and text leaves have no children. -/
structure Tidy (s : Scene) : Prop where
  linked : Linked s []
  bare : s.BareLeaves

/-- The scene became another that is tidy too, and no structured node was lost. -/
structure GrowsTo (s t : Scene) : Prop where
  tidy : t.Tidy
  isInner : ∀ r, s.IsInner r → t.IsInner r

namespace Tidy

theorem empty : Tidy {} where
  linked := Linked.empty
  bare r hr := by
    obtain ⟨node, hnode, -⟩ := hr
    exact absurd hnode (by simp [node?, Arena.get?])

theorem remove (h : s.Tidy) (r : Ref) : (s.remove r).2.Tidy :=
  ⟨h.linked.remove r, h.bare.remove r⟩

theorem mountRoot (h : s.Tidy) (key : String) (label : Label) : (s.mountRoot key label).2.Tidy := by
  refine ⟨h.linked.mountRoot key label, ?_⟩
  have place : ∀ t : Scene, t.Tidy →
      BareLeaves ⟨(t.nodes.insert { label with }).2,
        t.roots ++ [(key, (t.nodes.insert { label with }).1)]⟩ :=
    fun t ht => ht.bare.insert ht.linked.arena { label with } rfl
  rw [Scene.mountRoot]
  cases s.root? key with
  | none => exact place s h
  | some old => exact place _ (h.remove old)

/-- The root that was mounted is a text leaf only if its label has a text. -/
theorem isInner_mountRoot (h : s.Tidy) (key : String) {label : Label} (hlabel : label.isText = false) :
    (s.mountRoot key label).2.IsInner (s.mountRoot key label).1 := by
  have place : ∀ t : Scene, t.Tidy →
      IsInner ⟨(t.nodes.insert { label with }).2,
        t.roots ++ [(key, (t.nodes.insert { label with }).1)]⟩ (t.nodes.insert { label with }).1 :=
    fun t ht => ⟨_, node?_insert_self ht.linked.arena { label with }, hlabel⟩
  rw [Scene.mountRoot]
  cases s.root? key with
  | none => exact place s h
  | some old => exact place _ (h.remove old)

/-! ## Growing -/

theorem isText_withChild (n : Node) (child : Ref) : (n.withChild child).isText = n.isText := by
  rw [Node.withChild]
  split <;> rfl

theorem appendChild (h : s.Tidy) {parent : Ref} (hparent : ¬s.IsText parent) (label : Label) :
    GrowsTo s (s.appendChild parent label).2 := by
  suffices hnodes : (s.appendChild parent label).2.BareLeaves ∧
      ∀ r, s.IsInner r → (s.appendChild parent label).2.IsInner r from
    ⟨⟨h.linked.appendChild parent label, hnodes.1⟩, hnodes.2⟩
  by_cases hlive : s.contains parent = true
  · rw [appendChild_of_contains hlive]
    let node : Node := { label with parent := some parent }
    have hoff := agreeOff_insert h.linked.arena node
    -- what is live is not in the slot that is filled
    have hne : ∀ {q}, s.contains q = true → q ≠ (s.nodes.insert node).1 :=
      fun hq heq => h.linked.dead_insert node (heq ▸ hq)
    constructor
    · refine (h.bare.insert h.linked.arena node rfl).modify fun n hn htext => ?_
      rw [isText_withChild] at htext
      exact absurd ((isText_congr (hoff parent (hne hlive))).mp ⟨n, hn, htext⟩) hparent
    · intro r hr
      have hkept := (isInner_congr (hoff r (hne hr.contains))).mpr hr
      exact isInner_modify (fun n => isText_withChild n _) hkept
  · rw [Scene.appendChild, if_neg hlive]
    exact ⟨h.bare, fun r hr => hr⟩

/-- The child that was placed is structured if its label is. -/
theorem isInner_appendChild (h : s.Tidy) {parent : Ref} {label : Label}
    (hlabel : label.isText = false) (happend : s.appendChild parent label = (.ok r, t)) :
    t.IsInner r := by
  by_cases hlive : s.contains parent = true
  · rw [appendChild_of_contains hlive] at happend
    obtain ⟨hr, rfl⟩ := Prod.mk.inj happend
    obtain rfl := Except.ok.inj hr
    exact isInner_modify (fun n => isText_withChild n _)
      ⟨_, node?_insert_self h.linked.arena _, hlabel⟩
  · rw [Scene.appendChild, if_neg hlive] at happend
    exact absurd (Prod.mk.inj happend).1 (by simp)

/-- What a snapshot with children is placed as is structured. -/
theorem children_or_inner {snapshot : Snapshot} {placed : Label}
    (h : snapshot.placedLabel = .ok placed) :
    snapshot.children = [] ∨ placed.isText = false := by
  obtain ⟨label, children⟩ := snapshot
  rw [Snapshot.placedLabel] at h
  split at h
  · split at h
    · rename_i hempty
      exact Or.inl (List.isEmpty_iff.mp hempty)
    · exact absurd h (by simp)
  · rename_i hnone
    obtain rfl := Except.ok.inj h
    refine Or.inr ?_
    show label.text.isSome = false
    rw [hnone]
    rfl

mutual

theorem appendSnapshot {s : Scene} (h : s.Tidy) {parent : Ref} (hparent : ¬s.IsText parent) :
    ∀ snapshot : Snapshot, GrowsTo s (s.appendSnapshot parent snapshot).2
  | .node label children => by
    rw [Scene.appendSnapshot]
    split
    · exact ⟨h, fun r hr => hr⟩
    · rename_i placed hplaced
      have hgrown := h.appendChild hparent placed
      split
      · rename_i cause t happend
        rw [happend] at hgrown
        exact hgrown
      · rename_i r t happend
        rw [happend] at hgrown
        rcases children_or_inner hplaced with hnil | hinner
        · -- nothing is placed below a text leaf
          obtain rfl : children = [] := hnil
          rw [Scene.appendSnapshots]
          exact hgrown
        · have hr := h.isInner_appendChild hinner happend
          have hbelow := appendSnapshots hgrown.tidy hr children
          exact ⟨hbelow.tidy, fun q hq => hbelow.isInner q (hgrown.isInner q hq)⟩

theorem appendSnapshots {s : Scene} (h : s.Tidy) {parent : Ref} (hparent : s.IsInner parent) :
    ∀ snapshots : List Snapshot, GrowsTo s (s.appendSnapshots parent snapshots).2
  | [] => by
    rw [Scene.appendSnapshots]
    exact ⟨h, fun r hr => hr⟩
  | first :: rest => by
    rw [Scene.appendSnapshots]
    have hfirst := appendSnapshot h hparent.not_isText first
    split
    · rename_i cause t happend
      rw [happend] at hfirst
      exact hfirst
    · rename_i r t happend
      rw [happend] at hfirst
      have hrest := appendSnapshots hfirst.tidy (hfirst.isInner parent hparent) rest
      exact ⟨hrest.tidy, fun q hq => hrest.isInner q (hfirst.isInner q hq)⟩

end

/-! ## Whole scenes -/

theorem mountSnapshot {key : String} {snapshot : Snapshot} (h : s.Tidy)
    (hmount : s.mountSnapshot key snapshot = .ok t) : t.Tidy := by
  obtain ⟨placed, hplaced, hrest⟩ := bind_eq_ok_iff.mp hmount
  obtain ⟨done, -, hpure⟩ := bind_eq_ok_iff.mp hrest
  obtain rfl := pure_eq_ok_iff.mp hpure
  have hroot := h.mountRoot key placed
  rcases children_or_inner hplaced with hnil | hinner
  · rw [hnil, Scene.appendSnapshots]
    exact hroot
  · exact (hroot.appendSnapshots (h.isInner_mountRoot key hinner) snapshot.children).tidy

theorem ofSnapshots {roots : List (String × Snapshot)} (hbuild : Scene.ofSnapshots roots = .ok t) :
    t.Tidy := by
  have fold : ∀ (roots : List (String × Snapshot)) (s : Scene), s.Tidy →
      roots.foldlM (fun s root => s.mountSnapshot root.1 root.2) s = .ok t → t.Tidy := by
    intro roots
    induction roots with
    | nil =>
      intro s hs hfold
      obtain rfl := pure_eq_ok_iff.mp hfold
      exact hs
    | cons root rest ih =>
      intro s hs hfold
      rw [List.foldlM_cons] at hfold
      obtain ⟨next, hmount, hrest⟩ := bind_eq_ok_iff.mp hfold
      exact ih next (hs.mountSnapshot hmount) hrest
  exact fold roots {} Tidy.empty hbuild

theorem ofJson {v : Json.Value} (hread : Scene.ofJson v = .ok t) : t.Tidy := by
  rw [Scene.ofJson.eq_def] at hread
  split at hread
  · obtain ⟨roots, -, hbuild⟩ := bind_eq_ok_iff.mp hread
    exact ofSnapshots hbuild
  · exact absurd hread (by simp)

end Tidy

end Scene

/-! ## Edits -/

/-- The edits that place nodes as roots or below structured nodes, and those that place none. -/
def Edit.Grafts (s : Scene) : Edit → Prop
  | .appendChild parent _ | .appendSnapshot parent _ => ¬s.IsText parent
  | .mountRoot .. | .remove _ | .relabel .. => True
  | .link .. | .unlink .. => False

instance (s : Scene) : (e : Edit) → Decidable (e.Grafts s)
  | .appendChild parent _ | .appendSnapshot parent _ => inferInstanceAs (Decidable ¬s.IsText parent)
  | .mountRoot .. | .remove _ | .relabel .. => inferInstanceAs (Decidable True)
  | .link .. | .unlink .. => inferInstanceAs (Decidable False)

namespace Scene

/-- Each of the edits is of this kind when its turn comes. -/
def GraftsOnly (s : Scene) : List Edit → Prop
  | [] => True
  | e :: rest => e.Grafts s ∧ (s.edit e).2.GraftsOnly rest

instance decidableGraftsOnly (s : Scene) : (edits : List Edit) → Decidable (s.GraftsOnly edits)
  | [] => inferInstanceAs (Decidable True)
  | e :: rest =>
    have := decidableGraftsOnly (s.edit e).2 rest
    inferInstanceAs (Decidable (e.Grafts s ∧ (s.edit e).2.GraftsOnly rest))

variable {s : Scene}

theorem Tidy.relabel (h : s.Tidy) (r : Ref) (change : Relabel) : (s.relabel r change).2.Tidy := by
  refine ⟨h.linked.modify_label r (fun _ => rfl) fun _ => rfl, h.bare.modify fun node hnode htext => ?_⟩
  exact children_of_node hnode ▸ h.bare r ⟨node, hnode, htext⟩

theorem Tidy.edit (h : s.Tidy) {e : Edit} (he : e.Grafts s) : (s.edit e).2.Tidy := by
  cases e with
  | mountRoot key label => exact h.mountRoot key label
  | appendChild parent label => exact (h.appendChild he label).tidy
  | appendSnapshot parent snapshot => exact (h.appendSnapshot he snapshot).tidy
  | remove r => exact h.remove r
  | link parent child => exact he.elim
  | unlink parent child => exact he.elim
  | relabel r change => exact h.relabel r change

theorem tidy_editAll {edits : List Edit} (h : s.Tidy) (hedits : s.GraftsOnly edits) :
    (s.editAll edits).Tidy := by
  induction edits generalizing s with
  | nil => exact h
  | cons e rest ih => exact ih (h.edit hedits.1) hedits.2

end Scene

end SceneSelect
