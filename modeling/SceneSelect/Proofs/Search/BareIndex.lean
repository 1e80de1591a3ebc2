import SceneSelect.Proofs.Search.Alike
import SceneSelect.Proofs.Search.Elements
import SceneSelect.Proofs.Search.Faults

/-!
# `Proofs/Search/BareIndex.lean` — what a bare index picks

A bare index stands among the filters of its step, so it is asked about every node that the step looks
at; it holds of all of them and changes nothing there. It comes in at the end of the step, when the finds
from all starting points are together and the repeats are gone.

> **A step with a bare index finds the one that the position names of what the same step finds without
> it, or nothing; and it is refused where that one is** (`find_picking`).

This is so in every scene, whatever its links are, and whatever steps come before.
-/

set_option autoImplicit false

namespace SceneSelect

open SceneSelect.Path

/-- The step with a bare index for its filters. -/
def Path.Step.picking (step : Step) (p : Position) : Step := { step with filters := [.index p] }

namespace Area

variable {a : Area} {step : Step} {p : Position}

/-! ## One step -/

theorem alike_picking (s : Scene) (hplain : step.filters = []) (p : Position) :
    s.Alike step (step.picking p) := by
  apply Scene.alike_of_filters
  · intro r hr
    simp [hplain, Scene.resolve?, hr]
  · simp [Step.isTextFree, hplain, Filter.isText]

theorem childIndex_picking (hplain : step.filters = []) (p : Position) :
    childIndex (step.picking p) = childIndex step := by
  have hnone : ∀ q, Filter.childIndex q ∉ step.filters := by simp [hplain]
  rw [childIndex_of_no_filter hnone]
  exact childIndex_of_no_filter (by simp [Step.picking])

theorem slice_picking (step : Step) (p : Position) (found : List Ref) :
    slice false (step.picking p) found = .ok (p.pick found) := by
  have hsole : (step.picking p).soleIndex? = some p := rfl
  rw [slice, hsole]
  cases hpick : p.pick found with
  | nil => simp [hpick]
  | cons r rest => simp [hpick]

theorem slice_of_plain (hplain : step.filters = []) (strict : Bool) (found : List Ref) :
    slice strict step found = .ok found := by
  have hnone : step.soleIndex? = none := by rw [Step.soleIndex?, hplain]
  rw [slice, hnone]

theorem follow_picking (hplain : step.filters = []) (p : Position) (origins : List Origin) :
    a.follow false origins (step.picking p) = (a.follow false origins step).map p.pick := by
  rw [follow, follow, childIndex_picking hplain]
  cases childIndex step with
  | error cause => rfl
  | ok index =>
    show slice false (step.picking p) (origins.flatMap (a.reach (step.picking p) index)).eraseDups =
      (slice false step (origins.flatMap (a.reach step index)).eraseDups).map p.pick
    rw [(alike_picking a.scene hplain p).reach_eq index, slice_picking, slice_of_plain hplain]
    rfl

/-- From nothing nothing is found, with an index and without. -/
theorem next_picking (hplain : step.filters = []) (p : Position) (found : List Ref) :
    a.next false found (step.picking p) = (a.next false found step).map p.pick := by
  by_cases hempty : found = []
  · subst hempty
    rw [next_nil, next_nil]
    exact congrArg Except.ok p.pick_nil.symm
  · rw [next_of_ne_nil hempty, next_of_ne_nil hempty]
    exact follow_picking hplain p _

/-! ## Whole paths -/

theorem find_concat_picking (hplain : step.filters = []) (p : Position) (before : List Step) :
    a.find false (before ++ [step.picking p]) = (a.find false (before ++ [step])).map p.pick := by
  by_cases hne : before = []
  · subst hne
    rw [List.nil_append, List.nil_append, find_singleton, find_singleton]
    exact follow_picking hplain p _
  · rw [find_concat hne, find_concat hne]
    cases a.find false before with
    | error cause => rfl
    | ok sofar => exact next_picking hplain p sofar

/-- **A bare index picks from what its step finds without it.** So a path that ends with one finds one
node at most. A number finds nothing exactly if it counts beyond the finds, from the start or from the
end, and counting back from the last find is counting back from the end by one more. That takes finds few
enough to be counted in 64 bits, as they are where every slot has a number that a reference may have. -/
theorem find_picking (a : Area) (before : List Step) (hplain : step.filters = []) :
    (∀ p, a.find false (before ++ [step.picking p]) =
      (a.find false (before ++ [step])).map p.pick) ∧
    (∀ p picked, a.find false (before ++ [step.picking p]) = .ok picked → picked.length ≤ 1) ∧
    (a.scene.levels ≤ Ref.limit → ∀ found, a.find false (before ++ [step]) = .ok found →
      ∀ n : Int64, a.find false (before ++ [step.picking (.nth n)]) = .ok [] ↔
        (found.length : Int) ≤ n.toInt ∨ n.toInt < -found.length) ∧
    ∀ n < Text.Numeral.signed64,
      a.find false (before ++ [step.picking (.last (-Int64.ofNat n))]) =
        a.find false (before ++ [step.picking (.nth (Int64.ofInt (-(n + 1 : Nat))))]) := by
  have hpick : ∀ p, a.find false (before ++ [step.picking p]) =
      (a.find false (before ++ [step])).map p.pick :=
    fun p => find_concat_picking hplain p before
  refine ⟨hpick, ?_, ?_, ?_⟩
  · intro p picked hpicked
    rw [hpick] at hpicked
    obtain ⟨found, -, rfl⟩ := map_eq_ok_iff.mp hpicked
    exact p.length_pick_le found
  · intro hslots found hfound n
    have hlen : found.length < Text.Numeral.signed64 :=
      Nat.lt_of_le_of_lt ((length_find_le hfound).trans hslots) (by decide)
    rw [hpick, hfound, ← Position.index?_nth_eq_none_iff hlen, ← Position.pick_eq_nil_iff]
    show Except.ok _ = Except.ok [] ↔ _
    rw [Except.ok.injEq]
  · intro n hn
    rw [hpick, hpick, Position.pick_last_neg hn]

/-- Two items of a list, of which the third from the end is none, and the last but one is the second from
the end. -/
theorem find_picking_items :
    let item := Snapshot.node { tag := some "li" } []
    let roots := [("main", Snapshot.node { tag := some "ul" } [item, item])]
    let s := (Scene.ofSnapshots roots).toOption.getD {}
    let a : Area := ⟨s, s.rootRefs⟩
    let list : Step := { tag := some (.named "ul") }
    let items : Step := { mode := .any, tag := some (.named "li") }
    let found : List Ref := [⟨1⟩, ⟨2⟩]
    let third : Position := .nth (-3)
    let lastButOne : Position := .last (-Int64.ofNat 1)
    let second : Position := .nth (Int64.ofInt (-(1 + 1 : Nat)))
    items.filters = [] ∧ s.levels ≤ Ref.limit ∧ a.find false ([list] ++ [items]) = .ok found ∧
      a.find false ([list] ++ [items.picking second]) = .ok (second.pick found) ∧
      second.pick found = [⟨1⟩] ∧ (second.pick found).length ≤ 1 ∧
      a.find false ([list] ++ [items.picking third]) = .ok [] ∧
      a.find false ([list] ++ [items.picking lastButOne]) =
        a.find false ([list] ++ [items.picking second]) := by
  intro item roots s a list items found third lastButOne second
  have hslots : s.levels ≤ Ref.limit := by decide +kernel
  have hfound : a.find false ([list] ++ [items]) = .ok found := by decide +kernel
  clear_value s
  have hplain : items.filters = [] := rfl
  obtain ⟨hpick, hone, hnone, hback⟩ := find_picking a [list] hplain
  have hsecond : a.find false ([list] ++ [items.picking second]) = .ok (second.pick found) := by
    rw [hpick, hfound]
    rfl
  have hthird := (hnone hslots found hfound (-3)).mpr (Or.inr (by decide))
  exact ⟨hplain, hslots, hfound, hsecond, by decide, hone second _ hsecond, hthird,
    hback 1 (by decide)⟩

end Area

end SceneSelect
