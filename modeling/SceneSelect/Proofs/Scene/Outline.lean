import Mathlib.Algebra.GroupWithZero.Nat
import Mathlib.Data.List.TakeWhile
import SceneSelect.Scene.Snapshot

/-!
# `Proofs/Scene/Outline.lean` — snapshots in pre-order

The outline of a snapshot lists all that is in it in pre-order, each at its depth, as an indented text
does. A part of a snapshot is a beginning of it if its outline is one.

Placing a snapshot stops at the first text leaf with children, wherever that is. What has been placed by
then is put together here from the snapshot alone (`placed`), by the recursion that the placing itself goes
through, and **its outline is that of the snapshot up to the first refusal** (`outlineAll_placed`).
-/

set_option autoImplicit false

namespace SceneSelect.Snapshot

/-- A text leaf with children. -/
def isRefused : Snapshot → Bool
  | .node label children => label.text.isSome && !children.isEmpty

mutual

/-- The snapshot and all below it in pre-order, each with its depth. -/
def outline (depth : Nat) : Snapshot → List (Nat × Snapshot)
  | .node label children => (depth, .node label children) :: outlineAll (depth + 1) children

/-- The outlines of snapshots that stand side by side. -/
def outlineAll (depth : Nat) : List Snapshot → List (Nat × Snapshot)
  | [] => []
  | first :: rest => first.outline depth ++ outlineAll depth rest

end

mutual

/-- Is there nothing in it that is refused? -/
def fits : Snapshot → Bool
  | .node label children => !(Snapshot.node label children).isRefused && fitsAll children

/-- Is there nothing in any of them that is refused? -/
def fitsAll : List Snapshot → Bool
  | [] => true
  | first :: rest => first.fits && fitsAll rest

end

mutual

/-- The snapshot with every identity fit for paths. -/
def normalized : Snapshot → Snapshot
  | .node label children => .node label.normalized (normalizedAll children)

def normalizedAll : List Snapshot → List Snapshot
  | [] => []
  | first :: rest => first.normalized :: normalizedAll rest

end

mutual

/-- As much of the snapshot as is placed, which is nothing if it is refused itself. -/
def placed : Snapshot → List Snapshot
  | .node label children =>
    if (Snapshot.node label children).isRefused then [] else [.node label.normalized (placedAll children)]

/-- As much as is placed of snapshots that stand side by side: those behind a refusal are not come to. -/
def placedAll : List Snapshot → List Snapshot
  | [] => []
  | first :: rest => first.placed ++ if first.fits then placedAll rest else []

end

mutual

theorem outline_normalized (depth : Nat) : ∀ snapshot : Snapshot,
    snapshot.normalized.outline depth = (snapshot.outline depth).map fun e => (e.1, e.2.normalized)
  | .node label children => by
    rw [normalized, outline, outline, List.map_cons, outlineAll_normalized (depth + 1) children, normalized]

theorem outlineAll_normalized (depth : Nat) : ∀ snapshots : List Snapshot,
    outlineAll depth (normalizedAll snapshots) =
      (outlineAll depth snapshots).map fun e => (e.1, e.2.normalized)
  | [] => rfl
  | first :: rest => by
    rw [normalizedAll, outlineAll, outlineAll, List.map_append, outline_normalized depth first,
      outlineAll_normalized depth rest]

end

/-! ## What is refused -/

theorem placedLabel_of_isRefused {snapshot : Snapshot} (h : snapshot.isRefused = true) :
    ∃ cause, snapshot.placedLabel = .error cause := by
  obtain ⟨label, children⟩ := snapshot
  rw [isRefused, Bool.and_eq_true, Bool.not_eq_true'] at h
  obtain ⟨text, htext⟩ := Option.isSome_iff_exists.mp h.1
  rw [placedLabel, htext, h.2]
  exact ⟨_, rfl⟩

theorem placedLabel_of_not_isRefused {snapshot : Snapshot} (h : snapshot.isRefused = false) :
    snapshot.placedLabel = .ok snapshot.label.normalized := by
  obtain ⟨label, children⟩ := snapshot
  rw [placedLabel]
  cases htext : label.text with
  | none => rfl
  | some text =>
    rw [isRefused, htext] at h
    have hempty : children.isEmpty = true := by simpa using h
    rw [hempty]
    rfl

mutual

theorem fits_iff (depth : Nat) :
    ∀ snapshot : Snapshot, snapshot.fits = true ↔ ∀ e ∈ snapshot.outline depth, e.2.isRefused = false
  | .node label children => by
    rw [fits, outline, Bool.and_eq_true, Bool.not_eq_true', fitsAll_iff (depth + 1) children,
      List.forall_mem_cons]

theorem fitsAll_iff (depth : Nat) :
    ∀ snapshots : List Snapshot,
      fitsAll snapshots = true ↔ ∀ e ∈ outlineAll depth snapshots, e.2.isRefused = false
  | [] => by simp [fitsAll, outlineAll]
  | first :: rest => by
    rw [fitsAll, outlineAll, Bool.and_eq_true, fits_iff depth first, fitsAll_iff depth rest,
      List.forall_mem_append]

end

/-! ## What is placed -/

@[simp] theorem outlineAll_append (depth : Nat) (front back : List Snapshot) :
    outlineAll depth (front ++ back) = outlineAll depth front ++ outlineAll depth back := by
  induction front with
  | nil => rfl
  | cons first rest ih => rw [List.cons_append, outlineAll, outlineAll, ih, List.append_assoc]

theorem exists_placed {snapshot : Snapshot} (h : snapshot.isRefused = false) :
    ∃ part, snapshot.placed = [part] := by
  obtain ⟨label, children⟩ := snapshot
  rw [placed, h]
  exact ⟨_, rfl⟩

/-- A beginning that is not the whole is not added to by what comes behind. -/
theorem takeWhile_append_of_not_all {α : Type} {p : α → Bool} {front : List α}
    (h : ¬∀ x ∈ front, p x = true) (back : List α) :
    (front ++ back).takeWhile p = front.takeWhile p := by
  rw [List.takeWhile_append, if_neg fun hlength => h ?_]
  exact List.takeWhile_eq_self_iff.mp ((List.takeWhile_prefix p).eq_of_length hlength)

mutual

/-- **What is placed of a snapshot is the part that comes before its first refusal in pre-order, at the
same depths and with the labels normalized.** -/
theorem outlineAll_placed (depth : Nat) :
    ∀ snapshot : Snapshot,
      (outlineAll depth snapshot.placed).map (fun e => (e.1, e.2.label)) =
        ((snapshot.outline depth).takeWhile fun e => !e.2.isRefused).map fun e =>
          (e.1, e.2.label.normalized)
  | .node label children => by
    rw [placed, outline, List.takeWhile_cons]
    cases hrefused : (Snapshot.node label children).isRefused with
    | true => rfl
    | false =>
      rw [if_neg (by simp), Bool.not_false, if_pos rfl, outlineAll, outline, outlineAll, List.append_nil,
        List.map_cons, List.map_cons, outlineAll_placedAll (depth + 1) children]
      rfl

theorem outlineAll_placedAll (depth : Nat) :
    ∀ snapshots : List Snapshot,
      (outlineAll depth (placedAll snapshots)).map (fun e => (e.1, e.2.label)) =
        ((outlineAll depth snapshots).takeWhile fun e => !e.2.isRefused).map fun e =>
          (e.1, e.2.label.normalized)
  | [] => rfl
  | first :: rest => by
    rw [placedAll, outlineAll_append, List.map_append, outlineAll_placed depth first, outlineAll]
    have hfits := fits_iff depth first
    cases hfirst : first.fits with
    | true =>
      have hall : ∀ e ∈ first.outline depth, (!e.2.isRefused) = true := fun e he => by
        rw [hfits.mp hfirst e he]
        rfl
      rw [if_pos rfl, List.takeWhile_append_of_pos hall, List.takeWhile_eq_self_iff.mpr hall,
        List.map_append, outlineAll_placedAll depth rest]
    | false =>
      rw [takeWhile_append_of_not_all]
      · simp [outlineAll]
      · intro hall
        have hall' : first.fits = true := hfits.mpr fun e he => by simpa using hall e he
        exact absurd (hfirst.symm.trans hall') (by simp)

end

mutual

/-- All of a snapshot without a refusal is placed. -/
theorem placed_of_fits : ∀ snapshot : Snapshot, snapshot.fits = true →
    snapshot.placed = [snapshot.normalized]
  | .node label children, h => by
    rw [fits, Bool.and_eq_true, Bool.not_eq_true'] at h
    rw [placed, h.1, if_neg (by simp), normalized, placedAll_of_fits children h.2]

theorem placedAll_of_fits : ∀ snapshots : List Snapshot, fitsAll snapshots = true →
    placedAll snapshots = normalizedAll snapshots
  | [], _ => rfl
  | first :: rest, h => by
    rw [fitsAll, Bool.and_eq_true] at h
    rw [placedAll, h.1, if_pos rfl, placed_of_fits first h.1, placedAll_of_fits rest h.2]
    rfl

end

end SceneSelect.Snapshot
