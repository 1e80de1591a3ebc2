import SceneSelect.Proofs.Scene.Grafting
import SceneSelect.Proofs.Scene.Removal

/-!
# `Proofs/Scene/Import.lean` — a scene is what it was built from

Snapshots are taken in one after another, each under the key of a root. A key that comes again removes the
root that it had, so what counts is what was given under each key last (`latest`), and the freed slots are
filled with the nodes that come next. **Read back from its roots, the scene is these snapshots, and it has no
other nodes** (`ofSnapshots_shows`).

`Imported given s` is what this says of a scene half-way. The step has two parts, as the mounting has:
the root of the key goes (`Imported.cleared`), and the snapshot is put behind the others
(`Linked.mountBehind`). The other roots are read from nodes that neither of them touches.
-/

set_option autoImplicit false

namespace SceneSelect.Scene

/-- What was given under each key last, in the order of these last times. -/
def latest {α : Type} : List (String × α) → List (String × α)
  | [] => []
  | e :: rest => if rest.any fun later => later.1 == e.1 then latest rest else e :: latest rest

/-- The scene without what is mounted under the key. -/
def cleared (s : Scene) (key : String) : Scene :=
  match s.root? key with
  | some old => (s.remove old).2
  | none => s

/-! ## What was given last -/

section Latest

variable {α : Type}

theorem latest_sublist (given : List (String × α)) : (latest given).Sublist given := by
  induction given with
  | nil => exact .slnil
  | cons e rest ih =>
    rw [latest]
    split
    · exact ih.cons e
    · exact ih.cons_cons e

theorem latest_concat (given : List (String × α)) (e : String × α) :
    latest (given ++ [e]) = (latest given).filter (fun x => x.1 != e.1) ++ [e] := by
  induction given with
  | nil => rfl
  | cons x rest ih =>
    rw [List.cons_append, latest, latest, List.any_append, ih]
    by_cases hagain : rest.any (fun later => later.1 == x.1) = true
    · rw [hagain]
      rfl
    · rw [Bool.not_eq_true] at hagain
      rw [hagain, if_neg Bool.false_ne_true, Bool.false_or]
      by_cases hkey : e.1 = x.1
      · simp [hkey]
      · simp [hkey, Ne.symm hkey]

end Latest

/-! ## The roots one by one -/

/-- The roots under some of the keys show what the others do not touch. -/
theorem Shows.filter {s : Scene} {α : Type} (f : String × α → Snapshot) (keep : String → Bool)
    {mounted : List (String × Ref)} {given : List (String × α)} {refs : List Ref}
    (hkeys : mounted.map Prod.fst = given.map Prod.fst)
    (h : s.Shows (mounted.map Prod.snd) (given.map f) refs) :
    ∃ refs', s.Shows ((mounted.filter fun root => keep root.1).map Prod.snd)
      ((given.filter fun e => keep e.1).map f) refs' := by
  induction mounted generalizing given refs with
  | nil =>
    obtain rfl := List.map_eq_nil_iff.mp hkeys.symm
    exact ⟨[], .nil⟩
  | cons root rest ih =>
    obtain ⟨e, others, rfl⟩ : ∃ e others, given = e :: others := by
      cases given with
      | nil => exact absurd hkeys (by simp)
      | cons e others => exact ⟨e, others, rfl⟩
    obtain ⟨hkey, hothers⟩ := List.cons.inj hkeys
    obtain ⟨front, back, hroot, hrest⟩ := h.split
    obtain ⟨refs', hkept⟩ := ih hothers hrest
    rw [List.filter_cons, List.filter_cons, hkey]
    cases keep e.1 with
    | true => exact ⟨front ++ refs', hroot.append hkept⟩
    | false => exact ⟨refs', hkept⟩

/-! ## A key that comes again -/

theorem cleared_of_not_mem {s : Scene} {key : String} (h : key ∉ s.roots.map Prod.fst) :
    s.cleared key = s := by
  have hnone : s.root? key = none := by
    refine List.lookup_eq_none_iff.mpr fun root hroot => ?_
    simpa using fun heq : key = root.1 => h (List.mem_map.mpr ⟨root, hroot, heq.symm⟩)
  rw [cleared, hnone]

namespace Linked

variable {s : Scene}

theorem cleared (h : Linked s []) (key : String) : Linked (s.cleared key) [] := by
  rw [Scene.cleared]
  split
  · exact h.remove _
  · exact h

theorem roots_cleared (h : Linked s []) (key : String) :
    (s.cleared key).roots = s.roots.filter fun root => root.1 != key := by
  rw [Scene.cleared]
  cases hold : s.root? key with
  | none =>
    refine (List.filter_eq_self.mpr fun root hroot => ?_).symm
    have hne := List.lookup_eq_none_iff.mp hold root hroot
    simpa using fun heq : root.1 = key => by simp [heq] at hne
  | some old =>
    have hmem : (key, old) ∈ s.roots := Json.mem_of_lookup_eq_some hold
    obtain ⟨hlive, hnone⟩ := h.root_live (List.mem_map.mpr ⟨(key, old), hmem, rfl⟩)
    obtain ⟨-, -, -, hroots⟩ := uprooted_remove (.of_linked h) hlive
    rw [hnone] at hroots
    refine hroots.trans (List.filter_congr fun root hroot => ?_)
    -- the one root with the key is the one with the reference
    have hsame : root.1 = key ↔ root.2 = old := by
      constructor
      · intro hkey
        rw [List.inj_on_of_nodup_map h.keys_nodup hroot hmem hkey]
      · intro href
        rw [List.inj_on_of_nodup_map h.roots_nodup hroot hmem href]
    rw [Bool.eq_iff_iff, bne_iff_ne, bne_iff_ne, ne_eq, ne_eq, hsame]

/-- What is below another root is as it was. -/
theorem node?_cleared (h : Linked s []) {key : String} {root q : Ref}
    (hroot : root ∈ (s.cleared key).rootRefs) (hq : s.LeadsTo root q) :
    (s.cleared key).node? q = s.node? q := by
  have hs := h.isForest
  have hfilter := h.roots_cleared key
  rw [rootRefs, hfilter] at hroot
  obtain ⟨mounted, hmounted, rfl⟩ := List.mem_map.mp hroot
  obtain ⟨hin, hkey⟩ := List.mem_filter.mp hmounted
  rw [Scene.cleared]
  cases hold : s.root? key with
  | none => rfl
  | some old =>
    have hmem : (key, old) ∈ s.roots := Json.mem_of_lookup_eq_some hold
    have hroot : old ∈ s.rootRefs := List.mem_map.mpr ⟨(key, old), hmem, rfl⟩
    obtain ⟨hlive, hnone⟩ := h.root_live hroot
    obtain ⟨gone, -, hgone, -⟩ := uprooted_remove (.of_linked h) hlive
    have hkept : q ∉ gone := by
      intro hmember
      obtain ⟨-, x, hx, hleads⟩ := (hgone.mem_gone q).mp hmember
      obtain rfl := List.mem_singleton.mp hx
      have hback := (leadsTo_detach (.of_linked h)).mp hleads
      have heq := hs.eq_of_climbsTo_roots (List.mem_map.mpr ⟨mounted, hin, rfl⟩) hroot
        (hq.climbsTo hs) (hback.climbsTo hs)
      rw [List.inj_on_of_nodup_map h.roots_nodup hin hmem heq] at hkey
      simp at hkey
    rw [hgone.node?, if_neg hkept, node?_detach (.of_linked h), hnone, if_neg (by simp)]

end Linked

/-! ## A snapshot behind the others -/

/-- Mounts a node under a key that nothing is mounted under, and the snapshots below it. -/
def mountBehind (s : Scene) (key : String) (label : Label) (children : List Snapshot) :
    Except InputCause Unit × Scene :=
  let (r, nodes) := s.nodes.insert { label with }
  Scene.appendSnapshots ⟨nodes, s.roots ++ [(key, r)]⟩ r children

theorem mountSnapshot_eq (s : Scene) (key : String) {label : Label} {children : List Snapshot}
    (h : (Snapshot.node label children).isRefused = false) :
    s.mountSnapshot key (.node label children) =
      ((s.cleared key).mountBehind key label.normalized children).1.map fun _ =>
        ((s.cleared key).mountBehind key label.normalized children).2 := by
  rw [mountSnapshot, Snapshot.placedLabel_of_not_isRefused h]
  rfl

/-- A snapshot that is mounted under a new key comes behind the other roots, and no node that was there
changes. It is refused if something below it is. -/
theorem Linked.mountBehind {s : Scene} (hs : Linked s []) {key : String} (label : Label)
    (children : List Snapshot) (hkey : key ∉ s.roots.map Prod.fst) :
    let t := (s.mountBehind key label children).2
    Linked t [] ∧
      (∃ r refs, t.roots = s.roots ++ [(key, r)] ∧
        t.Shows [r] [.node label (Snapshot.placedAll children)] refs ∧
        (s.Packed → t.Packed ∧ t.nodes.slots.size = s.nodes.slots.size + refs.length ∧
          refs = (List.range' s.nodes.slots.size refs.length).map Ref.mk)) ∧
      (∀ q, s.contains q = true → t.node? q = s.node? q) ∧
      (Snapshot.fitsAll children = true → (s.mountBehind key label children).1 = .ok ()) ∧
      (Snapshot.fitsAll children = false →
        ∃ cause, (s.mountBehind key label children).1 = .error cause) := by
  let r := (s.nodes.insert { label with }).1
  let mounted : Scene := ⟨(s.nodes.insert { label with }).2, s.roots ++ [(key, r)]⟩
  have hmountBehind : s.mountBehind key label children = mounted.appendSnapshots r children := rfl
  rw [hmountBehind]
  intro t
  have hdead : ¬s.contains r = true := hs.dead_insert { label with }
  have hnode : mounted.node? r = some { label with } := node?_insert_self hs.arena { label with }
  have hmounted : Linked mounted [] := (hs.insert { label with } rfl).mount (parent_of_node hnode) hkey
  have hlive : mounted.contains r = true := contains_iff.mpr ⟨_, hnode⟩
  obtain ⟨kids, refs, hgraft, hall, hpart⟩ := hmounted.appendSnapshots_grafted hlive children
  have hr : r ∉ refs := fun hmem => hgraft.fresh r hmem hlive
  have hshown : t.node? r = some { label with children := kids } := by
    rw [hgraft.node? r hr, if_pos rfl, hnode]
    rfl
  refine ⟨hmounted.appendSnapshots r children, ⟨r, r :: refs, hgraft.roots, ?_, ?_⟩, ?_, hall, hpart⟩
  · have hroot := Shows.cons hshown hgraft.shown .nil
    rwa [List.append_nil] at hroot
  · intro hpacked
    obtain ⟨hfull, hsize, hnumber⟩ := hpacked.insert { label with } (s.roots ++ [(key, r)])
    have hfirst : [r] = (List.range' s.nodes.slots.size [r].length).map Ref.mk := by
      show [(s.nodes.insert { label with }).1] = _
      rw [hnumber]
      rfl
    obtain ⟨ht, htsize, hnumbers⟩ := hgraft.packed hfull
    refine ⟨ht, ?_, Grafted.numbers_append hfirst hsize hnumbers⟩
    rw [htsize, hsize, List.length_cons]
    omega
  · intro q hq
    have hqr : q ≠ r := fun heq => hdead (heq ▸ hq)
    have hkept : mounted.node? q = s.node? q := agreeOff_insert hs.arena { label with } q hqr
    have hout : q ∉ refs := fun hmem => hgraft.fresh q hmem ((contains_congr hkept).trans hq)
    rw [hgraft.node? q hout, if_neg hqr, hkept]

/-! ## One snapshot after another -/

/-- The scene is what was given, as far as it was given. -/
structure Imported (given : List (String × Snapshot)) (s : Scene) : Prop where
  linked : Linked s []
  keys : s.roots.map Prod.fst = (latest given).map Prod.fst
  shown : ∃ refs, s.Shows s.rootRefs ((latest given).map fun e => e.2.normalized) refs ∧
    -- while no key came again, no slot was free
    ((given.map Prod.fst).Nodup → s.Packed ∧ refs = (List.range s.nodes.slots.size).map Ref.mk)

namespace Imported

variable {given : List (String × Snapshot)} {s : Scene}

theorem empty : Imported [] {} where
  linked := Linked.empty
  keys := rfl
  shown := ⟨[], .nil, fun _ => ⟨rfl, rfl⟩⟩

theorem not_mem_keys (h : Imported given s) {key : String} (hkey : key ∉ given.map Prod.fst) :
    key ∉ s.roots.map Prod.fst := by
  rw [h.keys]
  exact fun hmem => hkey (((latest_sublist given).map Prod.fst).subset hmem)

/-- The roots but the one under the key are left, and show what they showed. -/
theorem cleared (h : Imported given s) (key : String) :
    ∃ refs, (s.cleared key).Shows (s.cleared key).rootRefs
        (((latest given).filter fun x => x.1 != key).map fun e => e.2.normalized) refs ∧
      ((given.map Prod.fst).Nodup → key ∉ given.map Prod.fst →
        (s.cleared key).Packed ∧ refs = (List.range (s.cleared key).nodes.slots.size).map Ref.mk) := by
  obtain ⟨refs, hshown, hpacked⟩ := h.shown
  have hroots := h.linked.roots_cleared key
  by_cases hkey : key ∈ given.map Prod.fst
  · obtain ⟨refs', hkept⟩ := hshown.filter (fun e => e.2.normalized) (fun k => k != key) h.keys
    have hrefs : (s.cleared key).rootRefs =
        (s.roots.filter fun root => root.1 != key).map Prod.snd := by rw [rootRefs, hroots]
    rw [← hrefs] at hkept
    refine ⟨refs', hkept.congr fun q hq => ?_, fun _ hnew => absurd hkey hnew⟩
    obtain ⟨root, hroot, hleads⟩ := hkept.mem_iff.mp hq
    exact h.linked.node?_cleared hroot hleads
  · have hstays := cleared_of_not_mem (h.not_mem_keys hkey)
    have hall : (latest given).filter (fun x => x.1 != key) = latest given := by
      refine List.filter_eq_self.mpr fun e he => ?_
      have hin := (latest_sublist given).subset he
      simpa using fun heq : e.1 = key => hkey (List.mem_map.mpr ⟨e, hin, heq⟩)
    rw [hstays, hall]
    exact ⟨refs, hshown, fun hnodup _ => hpacked hnodup⟩

/-- One more snapshot is taken in, unless something in it is refused. -/
theorem mount (h : Imported given s) (key : String) (snapshot : Snapshot) :
    (snapshot.fits = true → ∃ t, s.mountSnapshot key snapshot = .ok t ∧
      Imported (given ++ [(key, snapshot)]) t) ∧
    (snapshot.fits = false → ∃ cause, s.mountSnapshot key snapshot = .error cause) := by
  obtain ⟨label, children⟩ := snapshot
  rw [Snapshot.fits]
  cases hrefused : (Snapshot.node label children).isRefused with
  | true =>
    obtain ⟨cause, hcause⟩ := Snapshot.placedLabel_of_isRefused hrefused
    refine ⟨fun hfits => absurd hfits (by simp), fun _ => ⟨cause, ?_⟩⟩
    rw [mountSnapshot, hcause]
    rfl
  | false =>
    obtain ⟨refs, hkept, hpacked⟩ := h.cleared key
    have hroots := h.linked.roots_cleared key
    have hfree : key ∉ (s.cleared key).roots.map Prod.fst := by
      rw [hroots]
      simp
    obtain ⟨ht, ⟨r, new, htroots, hnew, hnumbers⟩, hold, hall, hpart⟩ :=
      (h.linked.cleared key).mountBehind label.normalized children hfree
    rw [mountSnapshot_eq s key hrefused, Bool.not_false, Bool.true_and]
    generalize (s.cleared key).mountBehind key label.normalized children = result at *
    refine ⟨fun hfits => ⟨result.2, ?_, ht, ?_, refs ++ new, ?_, ?_⟩, fun hfits => ?_⟩
    · rw [hall hfits]
      rfl
    · have hkeys := congrArg (List.filter fun k => k != key) h.keys
      rw [List.filter_map, List.filter_map] at hkeys
      rw [htroots, List.map_append, hroots, latest_concat, List.map_append]
      exact congrArg (· ++ [key]) hkeys
    · have hwhole : Snapshot.node label.normalized (Snapshot.placedAll children) =
          (Snapshot.node label children).normalized := by
        rw [Snapshot.normalized, Snapshot.placedAll_of_fits children hfits]
      have hlast := (hkept.congr fun q hq => hold q (hkept.live q hq)).append (hwhole ▸ hnew)
      rw [rootRefs, htroots, List.map_append, latest_concat, List.map_append]
      exact hlast
    · intro hnodup
      rw [List.map_append] at hnodup
      obtain ⟨hgiven, -, hapart⟩ := List.nodup_append.mp hnodup
      obtain ⟨hfull, hrefs⟩ := hpacked hgiven fun hmem =>
        hapart key hmem key (List.mem_singleton_self key) rfl
      obtain ⟨htfull, hsize, hnew'⟩ := hnumbers hfull
      refine ⟨htfull, ?_⟩
      rw [hsize, List.range_eq_range', ← List.range'_append_1, Nat.zero_add, List.map_append, ← hnew',
        ← List.range_eq_range', ← hrefs]
    · obtain ⟨cause, hcause⟩ := hpart hfits
      rw [hcause]
      exact ⟨cause, rfl⟩

end Imported

end SceneSelect.Scene
