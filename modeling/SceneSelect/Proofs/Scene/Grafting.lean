import Mathlib.Data.List.Range
import SceneSelect.Proofs.Scene.Edits
import SceneSelect.Proofs.Scene.Shown

/-!
# `Proofs/Scene/Grafting.lean` — what a snapshot that is placed leaves behind

Placing a snapshot goes down into it and stops at the first text leaf with children, however deep that
is. What it has placed by then stays: the parents of the refused node, and all that comes before it.

`Grafted s t parent part kids refs` says that `t` is `s` with the snapshots `part` as the last children of
`parent`, in slots that were empty, and with everything else as it was. It is closed under what the recursion
does, which is to go on below a node just made (`Grafted.below`) and to go on behind what was placed
(`Grafted.beside`). So **whatever a snapshot is, it leaves a graft; the graft is the snapshot up to its first
refusal in pre-order, and all of it if there is none** (`appendSnapshot_grafts`).
-/

set_option autoImplicit false

namespace SceneSelect.Scene

/-- No slot is free, so the next nodes are numbered from here on. -/
def Packed (s : Scene) : Prop := s.nodes.head = s.nodes.slots.size

/-- A node is made behind all others, and still no slot is free; which roots there are does not matter. -/
theorem Packed.insert {s : Scene} (h : s.Packed) (node : Node) (roots : List (String × Ref)) :
    Packed ⟨(s.nodes.insert node).2, roots⟩ ∧
      (s.nodes.insert node).2.slots.size = s.nodes.slots.size + 1 ∧
      (s.nodes.insert node).1 = ⟨s.nodes.slots.size⟩ := by
  have hsize : (s.nodes.slots.push (.full node)).size = s.nodes.slots.size + 1 := Array.size_push _
  rw [Arena.insert_of_head_eq h node]
  exact ⟨hsize.symm, hsize, rfl⟩

/-- The second scene is the first with snapshots placed behind the last child of `parent`. The nodes that
were made for them are `refs`, of which `kids` are the children of `parent`. -/
structure Grafted (s t : Scene) (parent : Ref) (part : List Snapshot) (kids refs : List Ref) : Prop where
  shown : t.Shows kids part refs
  /-- the slots were empty -/
  fresh : ∀ q ∈ refs, ¬s.contains q = true
  nodup : refs.Nodup
  /-- no other node changed, but that `parent` has more children -/
  node? : ∀ q, q ∉ refs → t.node? q =
    if q = parent then (s.node? q).map fun n => { n with children := n.children ++ kids }
    else s.node? q
  roots : t.roots = s.roots
  size : t.size = s.size + refs.length
  /-- where no slot was free, the nodes are numbered in pre-order -/
  packed : s.Packed → t.Packed ∧ t.nodes.slots.size = s.nodes.slots.size + refs.length ∧
    refs = (List.range' s.nodes.slots.size refs.length).map Ref.mk

namespace Grafted

variable {s t u : Scene} {parent r : Ref} {part part' : List Snapshot} {kids kids' refs refs' : List Ref}

theorem nil (s : Scene) (parent : Ref) : Grafted s s parent [] [] [] where
  shown := .nil
  fresh := by simp
  nodup := List.nodup_nil
  node? q _ := by
    split
    · cases s.node? q <;> simp
    · rfl
  roots := rfl
  size := rfl
  packed h := ⟨h, rfl, rfl⟩

theorem contains_of (h : Grafted s t parent part kids refs) {q : Ref} (hq : s.contains q = true) :
    t.contains q = true := by
  have hout : q ∉ refs := fun hmem => h.fresh q hmem hq
  obtain ⟨node, hnode⟩ := contains_iff.mp hq
  rw [contains_iff, h.node? q hout, hnode]
  split <;> exact ⟨_, rfl⟩

/-- Nodes are made one after another, so the numbers of the later ones follow on. -/
theorem numbers_append {n m : Nat} {front back : List Ref}
    (hfront : front = (List.range' n front.length).map Ref.mk) (hm : m = n + front.length)
    (hback : back = (List.range' m back.length).map Ref.mk) :
    front ++ back = (List.range' n (front ++ back).length).map Ref.mk := by
  rw [List.length_append, ← List.range'_append_1, List.map_append, ← hm, ← hfront, ← hback]

/-- The snapshots that go below a node just made become its children. -/
theorem below {label : Label} (hr : Grafted s t parent [.node label []] [r] [r])
    (hnode : t.node? r = some { label with parent := some parent })
    (h : Grafted t u r part kids refs) :
    Grafted s u parent [.node label part] [r] (r :: refs) := by
  have hlive : t.contains r = true := contains_iff.mpr ⟨_, hnode⟩
  have hr_out : r ∉ refs := fun hmem => h.fresh r hmem hlive
  have hplaced : u.node? r = some { label with parent := some parent, children := kids } := by
    rw [h.node? r hr_out, if_pos rfl, hnode]
    rfl
  constructor
  case shown =>
    have hshown := Shows.cons hplaced h.shown .nil
    rwa [List.append_nil] at hshown
  case fresh =>
    refine List.forall_mem_cons.mpr ⟨hr.fresh r (List.mem_singleton_self r), fun q hq hlive => ?_⟩
    exact h.fresh q hq (hr.contains_of hlive)
  case nodup => exact List.nodup_cons.mpr ⟨hr_out, h.nodup⟩
  case node? =>
    intro q hq
    obtain ⟨hqr, hqrefs⟩ := not_or.mp (mt List.mem_cons.mpr hq)
    rw [h.node? q hqrefs, if_neg hqr]
    exact hr.node? q (mt List.mem_singleton.mp hqr)
  case roots => exact h.roots.trans hr.roots
  case size =>
    rw [h.size, hr.size, List.length_cons, List.length_cons, List.length_nil]
    omega
  case packed =>
    intro hpacked
    obtain ⟨ht, htsize, hrnumber⟩ := hr.packed hpacked
    obtain ⟨hu, husize, hnumbers⟩ := h.packed ht
    refine ⟨hu, ?_, numbers_append hrnumber htsize hnumbers⟩
    rw [husize, htsize, List.length_cons, List.length_cons, List.length_nil]
    omega

/-- The snapshots that go behind what was placed come behind it. -/
theorem beside (hparent : s.contains parent = true) (h : Grafted s t parent part kids refs)
    (h' : Grafted t u parent part' kids' refs') :
    Grafted s u parent (part ++ part') (kids ++ kids') (refs ++ refs') := by
  have hlive : ∀ q ∈ refs, q ∉ refs' := fun q hq hq' => h'.fresh q hq' (h.shown.live q hq)
  constructor
  case shown =>
    -- the parent is none of the nodes that were made, so these are as they were
    refine Shows.append (h.shown.congr fun q hq => ?_) h'.shown
    rw [h'.node? q (hlive q hq), if_neg]
    rintro rfl
    exact h.fresh q hq hparent
  case fresh =>
    exact List.forall_mem_append.mpr
      ⟨h.fresh, fun q hq hold => h'.fresh q hq (h.contains_of hold)⟩
  case nodup =>
    exact List.nodup_append.mpr ⟨h.nodup, h'.nodup, fun a ha b hb heq => hlive a ha (heq ▸ hb)⟩
  case node? =>
    intro q hq
    obtain ⟨hout, hout'⟩ := not_or.mp (mt List.mem_append.mpr hq)
    rw [h'.node? q hout', h.node? q hout]
    split
    · rw [Option.map_map]
      refine congrArg (fun change => (s.node? q).map change) (funext fun n => ?_)
      simp
    · rfl
  case roots => exact h'.roots.trans h.roots
  case size =>
    rw [h'.size, h.size, List.length_append]
    omega
  case packed =>
    intro hpacked
    obtain ⟨ht, htsize, hnumbers⟩ := h.packed hpacked
    obtain ⟨hu, husize, hnumbers'⟩ := h'.packed ht
    refine ⟨hu, ?_, numbers_append hnumbers htsize hnumbers'⟩
    rw [husize, htsize, List.length_append]
    omega

end Grafted

/-! ## The recursion -/

/-- A new child is a graft of one node. -/
theorem Linked.appendChild_grafted {s : Scene} {parent : Ref} (hs : Linked s [])
    (hparent : s.contains parent = true) (label : Label) :
    ∃ r t, s.appendChild parent label = (.ok r, t) ∧
      t.node? r = some { label with parent := some parent } ∧
      Grafted s t parent [.node label []] [r] [r] := by
  let node : Node := { label with parent := some parent }
  let made := s.withNodes (s.nodes.insert node).2
  have hdead := hs.dead_insert node
  have hne : (s.nodes.insert node).1 ≠ parent := fun heq => hdead (heq ▸ hparent)
  have hunlisted : ∀ {q}, (s.nodes.insert node).1 ∉ s.children q := fun hmem =>
    hdead (contains_of_parent (hs.parent_of_child hmem))
  have hnew : (made.withNodes (made.nodes.modify parent fun n =>
      n.withChild (s.nodes.insert node).1)).node? (s.nodes.insert node).1 = some node := by
    rw [node?_modify, if_neg hne]
    exact node?_insert_self hs.arena node
  refine ⟨_, _, appendChild_of_contains hparent label, hnew, ?_⟩
  constructor
  case shown => exact .cons hnew .nil .nil
  case fresh =>
    intro q hq
    rwa [List.mem_singleton.mp hq]
  case nodup => exact List.nodup_singleton _
  case node? =>
    intro q hq
    have hold : made.node? q = s.node? q :=
      agreeOff_insert hs.arena node q (mt List.mem_singleton.mpr hq)
    show (made.withNodes (made.nodes.modify parent _)).node? q = _
    rw [node?_modify, hold]
    split
    · cases hq : s.node? q with
      | none => rfl
      | some n =>
        have hnot : (s.nodes.insert node).1 ∉ n.children := children_of_node hq ▸ hunlisted
        rw [Option.map_some, Option.map_some, Node.withChild, if_neg hnot]
    · rfl
  case roots => rfl
  case size =>
    show (made.nodes.modify parent _).live = s.nodes.live + 1
    rw [Arena.live_modify]
    exact hs.arena.live_insert node
  case packed =>
    intro hpacked
    obtain ⟨hmade, hsize, hnumber⟩ := hpacked.insert node s.roots
    refine ⟨?_, ?_, ?_⟩
    · show (made.nodes.modify parent _).head = (made.nodes.modify parent _).slots.size
      rw [Arena.head_modify, Arena.size_modify]
      exact hmade
    · show (made.nodes.modify parent _).slots.size = _
      rw [Arena.size_modify]
      exact hsize
    · show [(s.nodes.insert node).1] = _
      rw [hnumber]
      rfl

mutual

theorem Linked.appendSnapshot_grafted {s : Scene} {parent : Ref} (hs : Linked s [])
    (hparent : s.contains parent = true) :
    ∀ snapshot : Snapshot, ∃ kids refs,
      Grafted s (s.appendSnapshot parent snapshot).2 parent snapshot.placed kids refs ∧
      (snapshot.fits = true → ∃ r, (s.appendSnapshot parent snapshot).1 = .ok r ∧ kids = [r]) ∧
      (snapshot.fits = false → ∃ cause, (s.appendSnapshot parent snapshot).1 = .error cause)
  | .node label children => by
    rw [Scene.appendSnapshot, Snapshot.placed, Snapshot.fits]
    cases hrefused : (Snapshot.node label children).isRefused with
    | true =>
      obtain ⟨cause, hcause⟩ := Snapshot.placedLabel_of_isRefused hrefused
      rw [hcause, if_pos rfl]
      exact ⟨[], [], .nil s parent, by simp, fun _ => ⟨cause, rfl⟩⟩
    | false =>
      obtain ⟨r, t, happend, hnode, hr⟩ := hs.appendChild_grafted hparent label.normalized
      have ht : Linked t [] := by
        have hstep := hs.appendChild parent label.normalized
        rwa [happend] at hstep
      obtain ⟨kids, refs, hbelow, hall, hpart⟩ :=
        ht.appendSnapshots_grafted (contains_iff.mpr ⟨_, hnode⟩) children
      rw [Snapshot.placedLabel_of_not_isRefused hrefused, if_neg (by simp), Bool.not_false,
        Bool.true_and]
      dsimp only [Snapshot.label]
      rw [happend]
      refine ⟨[r], r :: refs, hr.below hnode hbelow, fun hfits => ⟨r, ?_, rfl⟩, fun hfits => ?_⟩
      · dsimp only
        rw [hall hfits]
        rfl
      · obtain ⟨cause, hcause⟩ := hpart hfits
        dsimp only
        rw [hcause]
        exact ⟨cause, rfl⟩

theorem Linked.appendSnapshots_grafted {s : Scene} {parent : Ref} (hs : Linked s [])
    (hparent : s.contains parent = true) :
    ∀ snapshots : List Snapshot, ∃ kids refs,
      Grafted s (s.appendSnapshots parent snapshots).2 parent (Snapshot.placedAll snapshots) kids refs ∧
      (Snapshot.fitsAll snapshots = true → (s.appendSnapshots parent snapshots).1 = .ok ()) ∧
      (Snapshot.fitsAll snapshots = false →
        ∃ cause, (s.appendSnapshots parent snapshots).1 = .error cause)
  | [] => ⟨[], [], .nil s parent, fun _ => rfl, by simp [Snapshot.fitsAll]⟩
  | first :: rest => by
    obtain ⟨kids, refs, hfirst, hall, hpart⟩ := hs.appendSnapshot_grafted hparent first
    have ht := hs.appendSnapshot parent first
    rw [Scene.appendSnapshots, Snapshot.placedAll, Snapshot.fitsAll]
    generalize s.appendSnapshot parent first = step at *
    obtain ⟨answer, t⟩ := step
    cases hfits : first.fits with
    | true =>
      obtain ⟨r, rfl, -⟩ := hall hfits
      obtain ⟨kids', refs', hrest, hall', hpart'⟩ :=
        ht.appendSnapshots_grafted (hfirst.contains_of hparent) rest
      rw [if_pos rfl, Bool.true_and]
      exact ⟨_, _, hfirst.beside hparent hrest, hall', hpart'⟩
    | false =>
      obtain ⟨cause, rfl⟩ := hpart hfits
      rw [if_neg (by simp), List.append_nil]
      exact ⟨kids, refs, hfirst, by simp, fun _ => ⟨cause, rfl⟩⟩

end

/-! ## A snapshot -/

/-- Without a parent, or as a text leaf with children, nothing of a snapshot is placed. -/
theorem appendSnapshot_stays {s : Scene} {parent : Ref} {snapshot : Snapshot}
    (h : ¬s.contains parent = true ∨ snapshot.isRefused = true) :
    ∃ cause, s.appendSnapshot parent snapshot = (.error cause, s) := by
  obtain ⟨label, children⟩ := snapshot
  rw [Scene.appendSnapshot]
  cases hlabel : (Snapshot.node label children).placedLabel with
  | error cause => exact ⟨cause, rfl⟩
  | ok placed =>
    have hparent : ¬s.contains parent = true := by
      refine h.resolve_right fun hrefused => ?_
      obtain ⟨cause, hcause⟩ := Snapshot.placedLabel_of_isRefused hrefused
      exact absurd (hlabel.symm.trans hcause) (by simp)
    dsimp only
    rw [Scene.appendChild, if_neg hparent]
    exact ⟨.missingParent parent, rfl⟩

end SceneSelect.Scene
