import SceneSelect.Proofs.Scene.Leaves
import SceneSelect.Proofs.Scene.Nearest
import SceneSelect.Scene.Values

/-!
# `Proofs/Scene/Texts.lean` — the text of a node

The text of a node is gathered with a stack. `texts` lists what is met on the way as a recursion over the
tree: the text of a leaf, and below every other node the texts of its children in order. **The text of a
node is what these come to when put together, and none if there are none** (`text?_eq`). The proof is one
induction over the run of the stack, in which every entry stands for the texts it still leads to.

In a scene whose text leaves have nothing below them every leaf at or below a node is met, so the text of
the leaf is part of the text of the node (`infix_text?`).
-/

set_option autoImplicit false

namespace SceneSelect.Scene

variable {s : Scene} {r leaf : Ref} {text : String}

/-- The text of a text leaf. -/
def leafText? (s : Scene) (r : Ref) : Option String := (s.node? r).bind fun n => n.text

theorem isText_iff : s.IsText r ↔ ∃ text, s.leafText? r = some text := by
  constructor
  · rintro ⟨node, hnode, htext⟩
    obtain ⟨text, htext⟩ := Option.isSome_iff_exists.mp htext
    exact ⟨text, Option.bind_eq_some_iff.mpr ⟨node, hnode, htext⟩⟩
  · rintro ⟨text, htext⟩
    obtain ⟨node, hnode, htext⟩ := Option.bind_eq_some_iff.mp htext
    exact ⟨node, hnode, Option.isSome_iff_exists.mpr ⟨text, htext⟩⟩

theorem contains_of_leafText (h : s.leafText? r = some text) : s.contains r = true := by
  obtain ⟨node, hnode, -⟩ := Option.bind_eq_some_iff.mp h
  exact contains_iff.mpr ⟨node, hnode⟩

/-! ## What the stack gathers -/

/-- The texts at or below a node, `n` levels of it, from left to right. Nothing below a text counts. -/
def texts (s : Scene) : Nat → Ref → List String
  | 0, _ => []
  | n + 1, r =>
    match s.leafText? r with
    | some text => [text]
    | none => (s.children r).flatMap (s.texts n)

/-- Texts put behind what was found before. -/
def putBehind (found : Option String) (ts : List String) : Option String :=
  ts.foldl (fun found text => some (found.getD "" ++ text)) found

theorem putBehind_append (found : Option String) (ts us : List String) :
    putBehind found (ts ++ us) = putBehind (putBehind found ts) us :=
  List.foldl_append

theorem putBehind_some (start : String) (ts : List String) :
    putBehind (some start) ts = some (start ++ String.join ts) := by
  induction ts generalizing start with
  | nil => simp [putBehind]
  | cons t rest ih =>
    show putBehind (some (start ++ t)) rest = _
    rw [ih, String.join_cons, String.append_assoc]

theorem putBehind_none (ts : List String) :
    putBehind none ts = if ts.isEmpty then none else some (String.join ts) := by
  cases ts with
  | nil => rfl
  | cons t rest =>
    show putBehind (some ("" ++ t)) rest = _
    rw [putBehind_some, String.empty_append, String.join_cons]
    rfl

section Gather

variable {n : Nat} {rest : List (Nat × Ref)} {found : Option String}

theorem gatherText_leaf (h : s.leafText? r = some text) :
    s.gatherText ((n + 1, r) :: rest) found =
      s.gatherText rest (some (found.getD "" ++ text)) := by
  rw [leafText?] at h
  rw [gatherText, h]

theorem gatherText_inner (h : s.leafText? r = none) :
    s.gatherText ((n + 1, r) :: rest) found =
      s.gatherText (((s.children r).map fun c => (n, c)) ++ rest) found := by
  rw [leafText?] at h
  rw [gatherText, h]

theorem gatherText_eq (stack : List (Nat × Ref)) (found : Option String) :
    s.gatherText stack found = putBehind found (stack.flatMap fun e => s.texts e.1 e.2) := by
  induction stack, found using gatherText.induct s with
  | case1 found => rw [gatherText]; rfl
  | case2 found r rest ih => rw [gatherText, ih]; rfl
  | case3 found n r rest text htext ih =>
    have hleaf : s.leafText? r = some text := htext
    rw [gatherText_leaf hleaf, ih, List.flatMap_cons, putBehind_append]
    simp only [texts, hleaf]
    rfl
  | case4 found n r rest hnone ih =>
    have hinner : s.leafText? r = none := hnone
    rw [gatherText_inner hinner, ih, List.flatMap_append, List.flatMap_cons]
    simp only [texts, hinner, List.flatMap_map]

end Gather

/-- The text of a node is made of the texts at or below it; without any there is none. -/
theorem text?_eq (s : Scene) (r : Ref) :
    s.text? r =
      if (s.texts s.levels r).isEmpty then none else some (String.join (s.texts s.levels r)) := by
  rw [text?, gatherText_eq, List.flatMap_singleton, putBehind_none]

/-! ## Leaves and the text above them -/

theorem mem_texts (hs : s.IsForest) (hbare : s.BareLeaves) {n : Nat}
    (hleaf : s.leafText? leaf = some text) (hbelow : s.ClimbsTo leaf r)
    (hn : s.levels ≤ n + s.depth r) : text ∈ s.texts n r := by
  have hlive := hs.contains_climbsTo (contains_of_leafText hleaf) hbelow
  induction n generalizing r with
  | zero => exact absurd (hs.depth_lt_levels hlive) (by omega)
  | succ n ih =>
    rw [texts]
    cases hr : s.leafText? r with
    | some own =>
      -- nothing else is at or below a text leaf
      have hnone := hbare r (isText_iff.mpr ⟨own, hr⟩)
      obtain rfl : leaf = r := by
        rcases hs.climbsTo_iff.mp hbelow with heq | ⟨c, hc, -⟩
        · exact heq
        · rw [hnone] at hc
          exact absurd hc List.not_mem_nil
      exact List.mem_singleton.mpr (Option.some.inj (hleaf.symm.trans hr))
    | none =>
      rcases hs.climbsTo_iff.mp hbelow with rfl | ⟨c, hc, hcleaf⟩
      · exact absurd (hleaf.symm.trans hr) (by simp)
      · refine List.mem_flatMap.mpr ⟨c, hc, ih hcleaf ?_ (hs.contains_child hc)⟩
        rw [hs.depth_of_child hc]
        omega

theorem infix_join {ts : List String} (h : text ∈ ts) :
    text.toList <:+: (String.join ts).toList := by
  rw [String.toList_join, List.flatMap_def]
  exact List.infix_of_mem_flatten (List.mem_map_of_mem h)

/-- The text of a leaf is part of the text of every node at or above it. -/
theorem infix_text? (hs : s.IsForest) (hbare : s.BareLeaves) (hleaf : s.leafText? leaf = some text)
    (hbelow : s.ClimbsTo leaf r) : ∃ t, s.text? r = some t ∧ text.toList <:+: t.toList := by
  have hmem : text ∈ s.texts s.levels r := mem_texts hs hbare hleaf hbelow (Nat.le_add_right _ _)
  have hsome : ¬(s.texts s.levels r).isEmpty = true := by
    rw [List.isEmpty_iff]
    exact List.ne_nil_of_mem hmem
  refine ⟨String.join (s.texts s.levels r), ?_, infix_join hmem⟩
  rw [text?_eq, if_neg hsome]

end SceneSelect.Scene
