import SceneSelect.Proofs.Arena.Peak
import SceneSelect.Proofs.Scene.Outline
import SceneSelect.Proofs.Scene.Removal

/-!
# `Proofs/Scene/Growth.lean` — how large the arena of a scene gets

Every edit of a scene is a number of insertions and removals at its arena, in an order of its own: a
removal frees slots one by one, a snapshot fills them one by one, and a root that takes the place of another
does both. In between there are never more nodes than before the edit or after it. So **a scene has exactly
as many slots as it had nodes at one time, after one of the edits that led to it**
(`isGreatest_editAll`), and what is put in the place of a removed part makes no new slot unless it is larger
(`slots_of_replaced`).

Where the links lead does not matter to any of this.
-/

set_option autoImplicit false

namespace SceneSelect.Scene

variable {s t : Scene}

/-! ## One edit -/

/-- The scene came from one with `n` slots, and got as many more as its nodes needed. -/
structure GrownFrom (n : Nat) (s : Scene) : Prop where
  arena : s.nodes.WellFormed
  slots : s.nodes.slots.size = max n s.size

theorem GrownFrom.of_slots {n : Nat} (h : s.nodes.WellFormed) (hslots : s.nodes.slots.size = n) :
    GrownFrom n s :=
  ⟨h, h.size_eq_max hslots⟩

theorem GrownFrom.self (h : s.nodes.WellFormed) : GrownFrom s.nodes.slots.size s :=
  .of_slots h rfl

/-- Changing a node needs no slot. -/
theorem GrownFrom.modify {n : Nat} (h : GrownFrom n s) (r : Ref) (change : Node → Node) :
    GrownFrom n (s.withNodes (s.nodes.modify r change)) where
  arena := h.arena.modify r change
  slots := by
    have hsize := Arena.size_modify s.nodes r change
    have hlive := Arena.live_modify s.nodes r change
    have hslots := h.slots
    simp only [Scene.size, withNodes] at hslots ⊢
    omega

theorem GrownFrom.insert {n : Nat} (h : GrownFrom n s) (node : Node) :
    GrownFrom n (s.withNodes (s.nodes.insert node).2) where
  arena := h.arena.insert node
  slots := by
    have hsize := h.arena.size_insert node
    have hlive := h.arena.live_insert node
    have hslots := h.slots
    simp only [Scene.size, withNodes] at hslots ⊢
    omega

/-- A removal needs no slot and gives none back. -/
theorem slots_remove (h : s.nodes.WellFormed) (r : Ref) :
    (s.remove r).2.nodes.WellFormed ∧ (s.remove r).2.nodes.slots.size = s.nodes.slots.size := by
  refine remove_keeps (P := fun t => t.nodes.WellFormed ∧ t.nodes.slots.size = s.nodes.slots.size) ?_ ?_
    ⟨h, rfl⟩ r
  · rintro t ⟨ht, hslots⟩ r
    cases t.parent? r with
    | none => exact ⟨ht, hslots⟩
    | some p => exact ⟨ht.modify p _, (Arena.size_modify t.nodes p _).trans hslots⟩
  · rintro t ⟨ht, hslots⟩ r
    exact ⟨ht.remove r, (Arena.size_remove t.nodes r).trans hslots⟩

theorem GrownFrom.remove (h : s.nodes.WellFormed) (r : Ref) :
    GrownFrom s.nodes.slots.size (s.remove r).2 :=
  .of_slots (slots_remove h r).1 (slots_remove h r).2

theorem GrownFrom.appendChild {n : Nat} (h : GrownFrom n s) (parent : Ref) (label : Label) :
    GrownFrom n (s.appendChild parent label).2 := by
  by_cases hparent : s.contains parent = true
  · rw [appendChild_of_contains hparent]
    exact (h.insert { label with parent := some parent }).modify parent _
  · rw [Scene.appendChild, if_neg hparent]
    exact h

theorem GrownFrom.mountRoot (h : s.nodes.WellFormed) (key : String) (label : Label) :
    GrownFrom s.nodes.slots.size (s.mountRoot key label).2 := by
  -- the old root goes first, so the new one may have its slot
  have place : ∀ t : Scene, GrownFrom s.nodes.slots.size t →
      GrownFrom s.nodes.slots.size ⟨(t.nodes.insert { label with }).2,
        t.roots ++ [(key, (t.nodes.insert { label with }).1)]⟩ :=
    fun t ht => ⟨(ht.insert { label with }).arena, (ht.insert { label with }).slots⟩
  rw [Scene.mountRoot]
  cases s.root? key with
  | none => exact place s (.self h)
  | some old => exact place _ (.remove h old)

theorem GrownFrom.edit (h : s.nodes.WellFormed) (e : Edit) : GrownFrom s.nodes.slots.size (s.edit e).2 := by
  cases e with
  | mountRoot key label => exact .mountRoot h key label
  | appendChild parent label => exact (GrownFrom.self h).appendChild parent label
  | appendSnapshot parent snapshot =>
    exact appendSnapshot_keeps (fun _ h => h.appendChild) (.self h) parent snapshot
  | remove r => exact .remove h r
  | link parent child => exact (GrownFrom.self h).modify parent _
  | unlink parent child => exact (GrownFrom.self h).modify parent _
  | relabel r change => exact (GrownFrom.self h).modify r _

/-! ## Any number of edits -/

theorem wellFormed_editAll (edits : List Edit) : (Scene.editAll {} edits).nodes.WellFormed :=
  (Sound.editAll (.of_linked .empty) edits).arena

/-- A scene has as many slots as it had nodes at one time, and never had more nodes. -/
theorem isGreatest_editAll (edits : List Edit) :
    IsGreatest {n | ∃ past, past <+: edits ∧ (Scene.editAll {} past).nodes.countFull = n}
      (Scene.editAll {} edits).nodes.slots.size := by
  have hcount : ∀ edits : List Edit,
      (Scene.editAll {} edits).nodes.countFull = (Scene.editAll {} edits).size :=
    fun edits => (wellFormed_editAll edits).counted.symm
  simp only [hcount]
  exact isGreatest_run (fun s => s.nodes.slots.size) Scene.size (P := fun s => s.nodes.WellFormed)
    (fun s e h => (GrownFrom.edit h e).arena) (fun s e h => (GrownFrom.edit h e).slots)
    {} Arena.wellFormed_empty rfl edits

/-! ## Scenes from snapshots -/

/-- Snapshots that are all placed are placed one by one. -/
theorem appendSnapshots_eq_editAll {parent : Ref} {snapshots : List Snapshot}
    (h : (s.appendSnapshots parent snapshots).1 = .ok ()) :
    (s.appendSnapshots parent snapshots).2 = s.editAll (snapshots.map (.appendSnapshot parent)) := by
  induction snapshots generalizing s with
  | nil => rfl
  | cons first rest ih =>
    rw [Scene.appendSnapshots] at h ⊢
    have hedit : s.editAll ((first :: rest).map (.appendSnapshot parent)) =
        (s.appendSnapshot parent first).2.editAll (rest.map (.appendSnapshot parent)) := rfl
    rw [hedit]
    cases hfirst : s.appendSnapshot parent first with
    | mk done next =>
      rw [hfirst] at h
      cases done with
      | error cause => exact absurd h (by simp)
      | ok r => exact ih h

theorem mountSnapshot_eq_editAll {key : String} {snapshot : Snapshot}
    (h : s.mountSnapshot key snapshot = .ok t) : ∃ edits, s.editAll edits = t := by
  obtain ⟨placed, -, hrest⟩ := bind_eq_ok_iff.mp h
  obtain ⟨done, hdone, hpure⟩ := bind_eq_ok_iff.mp hrest
  obtain rfl := pure_eq_ok_iff.mp hpure
  refine ⟨.mountRoot key placed ::
    snapshot.children.map (.appendSnapshot (s.mountRoot key placed).1), ?_⟩
  exact (appendSnapshots_eq_editAll hdone).symm

/-- Whatever is built from snapshots is what some edits make of the empty scene. -/
theorem exists_editAll_of_ofSnapshots {roots : List (String × Snapshot)}
    (hbuild : Scene.ofSnapshots roots = .ok s) : ∃ edits, Scene.editAll {} edits = s := by
  have fold : ∀ (roots : List (String × Snapshot)) (edits : List Edit),
      roots.foldlM (fun s root => s.mountSnapshot root.1 root.2) (Scene.editAll {} edits) = .ok s →
      ∃ edits, Scene.editAll {} edits = s := by
    intro roots
    induction roots with
    | nil =>
      intro edits hfold
      exact ⟨edits, pure_eq_ok_iff.mp hfold⟩
    | cons root rest ih =>
      intro edits hfold
      rw [List.foldlM_cons] at hfold
      obtain ⟨next, hmount, hrest⟩ := bind_eq_ok_iff.mp hfold
      obtain ⟨more, rfl⟩ := mountSnapshot_eq_editAll hmount
      rw [← editAll_append] at hrest
      exact ih _ hrest
  exact fold roots [] hbuild

/-! ## A part in the place of another -/

theorem size_appendChild_le {s : Scene} (h : s.nodes.WellFormed) (parent : Ref) (label : Label) :
    (s.appendChild parent label).2.size ≤ s.size + 1 := by
  by_cases hparent : s.contains parent = true
  · rw [appendChild_of_contains hparent]
    have hlive := h.live_insert { label with parent := some parent }
    simp only [Scene.size, withNodes, Arena.live_modify]
    omega
  · rw [Scene.appendChild, if_neg hparent]
    exact Nat.le_succ _

mutual

/-- A snapshot adds no more nodes than it has. -/
theorem size_appendSnapshot_le {s : Scene} (h : s.nodes.WellFormed) (parent : Ref) (depth : Nat) :
    ∀ snapshot : Snapshot,
      (s.appendSnapshot parent snapshot).2.size ≤ s.size + (snapshot.outline depth).length
  | .node label children => by
    rw [Scene.appendSnapshot, Snapshot.outline, List.length_cons]
    split
    · exact Nat.le_add_right _ _
    · rename_i placed _
      have hsize := size_appendChild_le h parent placed
      have hgrown := (GrownFrom.self h).appendChild parent placed
      split
      · rename_i cause next happend
        rw [happend] at hsize
        dsimp only at hsize ⊢
        omega
      · rename_i r next happend
        rw [happend] at hsize hgrown
        have hrest := size_appendSnapshots_le (s := next) hgrown.arena r (depth + 1) children
        dsimp only at hsize ⊢
        omega

theorem size_appendSnapshots_le {s : Scene} (h : s.nodes.WellFormed) (parent : Ref) (depth : Nat) :
    ∀ snapshots : List Snapshot,
      (s.appendSnapshots parent snapshots).2.size ≤
        s.size + (Snapshot.outlineAll depth snapshots).length
  | [] => by
    rw [Scene.appendSnapshots]
    exact Nat.le_add_right _ _
  | first :: rest => by
    rw [Scene.appendSnapshots, Snapshot.outlineAll, List.length_append]
    have hsize := size_appendSnapshot_le h parent depth first
    have hgrown := (GrownFrom.edit h (.appendSnapshot parent first)).arena
    have hedit : (s.edit (.appendSnapshot parent first)).2 = (s.appendSnapshot parent first).2 := rfl
    rw [hedit] at hgrown
    split
    · rename_i cause next hfirst
      rw [hfirst] at hsize
      dsimp only at hsize ⊢
      omega
    · rename_i r next hfirst
      rw [hfirst] at hsize hgrown
      have hrest := size_appendSnapshots_le (s := next) hgrown parent depth rest
      dsimp only at hsize ⊢
      omega

end

theorem size_remove (hs : s.Sound) (r : Ref) : (s.remove r).2.size + (s.remove r).1 = s.size := by
  by_cases hr : s.contains r = true
  · obtain ⟨gone, hcount, hgone, -⟩ := uprooted_remove hs hr
    rw [hcount]
    exact hgone.size.trans size_detach
  · rw [Scene.remove, node?_eq_none hr]
    rfl

/-- What is put in the place of a removed part finds the slots of that part. -/
theorem slots_of_replaced (hs : s.Sound) (r parent : Ref) {snapshot : Snapshot}
    (hfits : (snapshot.outline 0).length ≤ (s.remove r).1) :
    ((s.remove r).2.appendSnapshot parent snapshot).2.nodes.slots.size = s.nodes.slots.size := by
  obtain ⟨harena, hslots⟩ := slots_remove hs.arena r
  have hsize := size_remove hs r
  have hadded := size_appendSnapshot_le harena parent 0 snapshot
  have hroom : s.size ≤ s.nodes.slots.size := hs.arena.live_le_size
  have hgrown := (GrownFrom.edit harena (.appendSnapshot parent snapshot)).slots
  simp only [Scene.edit, Prod.map_snd, id_eq] at hgrown
  omega

/-- **The number of slots ever made is the greatest number of values that there was at one time: of an
arena, after any number of uses, and of a scene, after any number of edits, to which a scene from snapshots
comes down as well. So a part that is removed makes room for any part with no more nodes.** -/
theorem slots_isGreatest_live :
    (∀ {α : Type} (uses : List (Arena.Use α)),
      IsGreatest {n | ∃ past, past <+: uses ∧ (({} : Arena α).performAll past).2.countFull = n}
        (({} : Arena α).performAll uses).2.slots.size) ∧
      (∀ edits : List Edit,
        IsGreatest {n | ∃ past, past <+: edits ∧ (Scene.editAll {} past).nodes.countFull = n}
          (Scene.editAll {} edits).nodes.slots.size) ∧
      (∀ roots s, Scene.ofSnapshots roots = .ok s → ∃ edits, Scene.editAll {} edits = s) ∧
      ∀ (edits : List Edit) (r parent : Ref) (snapshot : Snapshot),
        let s := Scene.editAll {} edits
        (snapshot.outline 0).length ≤ (s.remove r).1 →
          ((s.remove r).2.appendSnapshot parent snapshot).2.nodes.slots.size = s.nodes.slots.size := by
  refine ⟨Arena.isGreatest_performAll, isGreatest_editAll,
    fun roots s => exists_editAll_of_ofSnapshots, fun edits r parent snapshot => ?_⟩
  exact slots_of_replaced (Sound.editAll (.of_linked .empty) edits) r parent

/-- A list with two rows is removed, and another one is put in its place. -/
theorem slots_isGreatest_live_replaced :
    let row := Snapshot.node { tag := some "row" } []
    let list := Snapshot.node { tag := some "list" } [row, row]
    let edits : List Edit := [.mountRoot "main" {}, .appendSnapshot ⟨0⟩ list]
    let s := Scene.editAll {} edits
    let t := ((s.remove ⟨1⟩).2.appendSnapshot ⟨0⟩ list).2
    (list.outline 0).length ≤ (s.remove ⟨1⟩).1 ∧ s.nodes.slots.size = 4 ∧ t.nodes.slots.size = 4 := by
  intro row list edits s t
  have hremoved : (s.remove ⟨1⟩).1 = 3 := by decide +kernel
  have hfits : (list.outline 0).length ≤ (s.remove ⟨1⟩).1 := by
    rw [hremoved]
    decide
  have hbefore : s.nodes.slots.size = 4 := by decide +kernel
  have hafter : t.nodes.slots.size = s.nodes.slots.size :=
    slots_isGreatest_live.2.2.2 edits ⟨1⟩ ⟨0⟩ list hfits
  exact ⟨hfits, hbefore, hafter.trans hbefore⟩

end SceneSelect.Scene
