import SceneSelect.Proofs.Search.Alike
import SceneSelect.Proofs.Search.Faults

/-!
# `Proofs/Search/Conjunction.lean` — filters in any order, and said more than once

The filters of a step are a conjunction: a node is accepted where all of them hold, and what it is found
as does not depend on which text filter comes last. So of the conditions among them, those on text,
attributes and data, a search sees only which there are. Of the index filters it sees more: how many child
indices there are, and whether a bare index stands alone. Neither changes when filters change places or a
condition is repeated.

> **A path finds the same, and is refused in the same cases, when the filters of its steps are put in
> another order and conditions among them are said again** (`find_rejoined`).
-/

set_option autoImplicit false

namespace SceneSelect

/-- A list of one item, or of none, has no other order. -/
theorem eq_toList_iff_of_perm {α : Type} {l l' : List α} (h : l.Perm l') (item : Option α) :
    l = item.toList ↔ l' = item.toList := by
  cases item with
  | none =>
    show l = [] ↔ l' = []
    rw [← List.length_eq_zero_iff, ← List.length_eq_zero_iff, h.length_eq]
  | some a =>
    constructor
    · rintro rfl
      exact List.perm_singleton.mp h.symm
    · rintro rfl
      exact List.perm_singleton.mp h

namespace Path

/-! ## The same filters, joined in another way -/

/-- Does the filter put a condition on the node, and not pick from a list? -/
def Filter.isCondition : Filter → Bool
  | .text _ | .attribute _ _ | .data _ _ => true
  | .index _ | .childIndex _ => false

/-- Filters change places, and conditions are repeated, or no longer are. -/
inductive Rejoined : List Filter → List Filter → Prop
  | reordered {fs gs : List Filter} (h : fs.Perm gs) : Rejoined fs gs
  | repeated {f : Filter} {fs : List Filter} (hmem : f ∈ fs) (hcondition : f.isCondition = true) :
    Rejoined fs (f :: fs)
  | symm {fs gs : List Filter} (h : Rejoined fs gs) : Rejoined gs fs
  | trans {fs gs hs : List Filter} (h : Rejoined fs gs) (h' : Rejoined gs hs) : Rejoined fs hs

namespace Rejoined

variable {fs gs : List Filter}

theorem mem_iff (h : Rejoined fs gs) (f : Filter) : f ∈ gs ↔ f ∈ fs := by
  induction h with
  | reordered hperm => exact hperm.mem_iff.symm
  | @repeated g fs hmem _ =>
    rw [List.mem_cons, or_iff_right_of_imp]
    rintro rfl
    exact hmem
  | symm _ ih => exact ih.symm
  | trans _ _ ih ih' => exact ih'.trans ih

theorem all_eq (h : Rejoined fs gs) (test : Filter → Bool) : gs.all test = fs.all test := by
  rw [Bool.eq_iff_iff, List.all_eq_true, List.all_eq_true]
  exact forall_congr' fun f => imp_congr_left (h.mem_iff f)

theorem childIndices_perm (h : Rejoined fs gs) :
    (gs.filterMap Filter.childIndex?).Perm (fs.filterMap Filter.childIndex?) := by
  induction h with
  | reordered hperm => exact (hperm.filterMap _).symm
  | @repeated f fs _ hcondition =>
    -- what is said again is no child index
    have hnone : f.childIndex? = none := by
      cases f with
      | childIndex p => exact absurd hcondition (by simp [Filter.isCondition])
      | _ => rfl
    rw [List.filterMap_cons_none hnone]
  | symm _ ih => exact ih.symm
  | trans _ _ ih ih' => exact ih'.trans ih

/-- A bare index that stands alone stays alone, for it is no condition that could be repeated. -/
theorem eq_index_iff (h : Rejoined fs gs) (p : Position) : gs = [.index p] ↔ fs = [.index p] := by
  induction h with
  | reordered hperm => exact eq_toList_iff_of_perm hperm.symm (some (.index p))
  | @repeated f fs hmem hcondition =>
    constructor
    · intro heq
      obtain ⟨rfl, -⟩ := List.cons.inj heq
      exact absurd hcondition (by simp [Filter.isCondition])
    · rintro rfl
      obtain rfl := List.mem_singleton.mp hmem
      exact absurd hcondition (by simp [Filter.isCondition])
  | symm _ ih => exact ih.symm
  | trans _ _ ih ih' => exact ih'.trans ih

end Rejoined

/-- The same step with its filters joined in another way. -/
def Step.Rejoined (step step' : Step) : Prop :=
  ∃ filters, Path.Rejoined step.filters filters ∧ step' = { step with filters }

end Path

open SceneSelect.Path

namespace Area

variable {a : Area} {strict : Bool} {step step' : Step} {path path' : List Step}
  {found kept : List Ref}

/-! ## One step -/

theorem alike_rejoined (s : Scene) (h : step.Rejoined step') : s.Alike step step' := by
  obtain ⟨filters, hfilters, rfl⟩ := h
  apply Scene.alike_of_filters
  · intro r _
    exact forall_congr' fun f => imp_congr_left (hfilters.mem_iff f)
  · exact hfilters.all_eq _

theorem childIndex_eq_ok_iff {index : Option Position} :
    childIndex step = .ok index ↔ step.childIndices = index.toList := by
  unfold childIndex
  split
  case h_1 hnil => cases index <;> simp [hnil]
  case h_2 p hone => cases index <;> simp [hone]
  case h_3 hnone hmany =>
    cases index with
    | none => simpa using hnone
    | some p => simpa using hmany p

theorem childIndices_rejoined (h : step.Rejoined step') :
    step'.childIndices.Perm step.childIndices := by
  obtain ⟨filters, hfilters, rfl⟩ := h
  exact hfilters.childIndices_perm.append_right _

theorem childIndex_rejoined (h : step.Rejoined step') {index : Option Position} :
    childIndex step' = .ok index ↔ childIndex step = .ok index := by
  rw [childIndex_eq_ok_iff, childIndex_eq_ok_iff]
  exact eq_toList_iff_of_perm (childIndices_rejoined h) index

theorem soleIndex_rejoined (h : step.Rejoined step') : step'.soleIndex? = step.soleIndex? := by
  obtain ⟨filters, hfilters, rfl⟩ := h
  apply Option.ext
  intro p
  rw [soleIndex?_eq_some_iff, soleIndex?_eq_some_iff]
  exact hfilters.eq_index_iff p

/-- An index out of range is refused with the step as it is written, so only the success is the same. -/
theorem slice_rejoined (h : step.Rejoined step') :
    slice strict step' found = .ok kept ↔ slice strict step found = .ok kept := by
  rw [slice, slice, soleIndex_rejoined h]
  cases step.soleIndex? with
  | none => rfl
  | some p =>
    cases hpick : p.pick found with
    | nil => cases strict <;> simp [hpick]
    | cons r rest => simp [hpick]

theorem follow_rejoined (h : step.Rejoined step') {origins : List Origin} :
    a.follow strict origins step' = .ok kept ↔ a.follow strict origins step = .ok kept := by
  rw [follow, follow, bind_eq_ok_iff, bind_eq_ok_iff]
  refine exists_congr fun index => and_congr (childIndex_rejoined h) ?_
  rw [(alike_rejoined a.scene h).reach_eq index]
  exact slice_rejoined h

theorem next_rejoined (h : step.Rejoined step') :
    a.next strict found step' = .ok kept ↔ a.next strict found step = .ok kept := by
  by_cases hempty : found = []
  · subst hempty
    rw [next_nil, next_nil]
  · rw [next_of_ne_nil hempty, next_of_ne_nil hempty]
    exact follow_rejoined h

/-! ## Whole paths -/

theorem foldlM_rejoined (h : List.Forall₂ Step.Rejoined path path') (sofar : List Ref) :
    path'.foldlM (a.next strict) sofar = .ok kept ↔
      path.foldlM (a.next strict) sofar = .ok kept := by
  induction h generalizing sofar with
  | nil => rfl
  | cons hstep _ ih =>
    rw [List.foldlM_cons, List.foldlM_cons, bind_eq_ok_iff, bind_eq_ok_iff]
    exact exists_congr fun following => and_congr (next_rejoined hstep) (ih following)

theorem find_eq_ok_rejoined (h : List.Forall₂ Step.Rejoined path path') :
    a.find strict path' = .ok found ↔ a.find strict path = .ok found := by
  cases h with
  | nil => rfl
  | cons hfirst hrest =>
    rw [find, find, bind_eq_ok_iff, bind_eq_ok_iff]
    exact exists_congr fun sofar => and_congr (follow_rejoined hfirst) (foldlM_rejoined hrest sofar)

/-- **A path finds the same when the filters of its steps change places and conditions are repeated**,
and where the one is refused so is the other. -/
theorem find_rejoined (a : Area) (strict : Bool) (h : List.Forall₂ Step.Rejoined path path') :
    (∀ found, a.find strict path' = .ok found ↔ a.find strict path = .ok found) ∧
    ((∃ cause, a.find strict path' = .error cause) ↔ ∃ cause, a.find strict path = .error cause) := by
  have hfound : ∀ found, a.find strict path' = .ok found ↔ a.find strict path = .ok found :=
    fun found => find_eq_ok_rejoined h
  refine ⟨hfound, ?_⟩
  rw [exists_error_iff, exists_error_iff]
  exact forall_congr' fun found => not_congr (hfound found)

/-- A form is found through the label of its button. The two conditions on the form change places, and
that on the label is repeated. -/
theorem find_rejoined_form :
    let button := Snapshot.node { tag := some "button" } [.node { text := some "Save" } []]
    let form := Snapshot.node
      { tag := some "form", element := some { attributes := .ofList [("mode", "edit")] } } [button]
    let s := (Scene.ofSnapshots [("main", form)]).toOption.getD {}
    let a : Area := ⟨s, s.rootRefs⟩
    let edit : Filter := .attribute "mode" ⟨.startsWith, "ed"⟩
    let named : Filter := .attribute "mode" ⟨.contains, "i"⟩
    let save : Filter := .text ⟨.equal, "Save"⟩
    let steps (conditions labels : List Filter) : List Step :=
      [{ tag := some (.named "form"), filters := conditions },
        { tag := some (.named "button"), filters := labels }]
    List.Forall₂ Step.Rejoined (steps [edit, named] [save]) (steps [named, edit] [save, save]) ∧
      a.find true (steps [edit, named] [save]) = .ok [⟨0⟩] ∧
      a.find true (steps [named, edit] [save, save]) = .ok [⟨0⟩] := by
  intro button form s a edit named save steps
  have hfound : a.find true (steps [edit, named] [save]) = .ok [⟨0⟩] := by decide +kernel
  have hsteps : List.Forall₂ Step.Rejoined (steps [edit, named] [save])
      (steps [named, edit] [save, save]) := by
    refine .cons ⟨_, .reordered (List.Perm.swap _ _ _), rfl⟩ (.cons ⟨_, ?_, rfl⟩ .nil)
    exact .repeated List.mem_cons_self rfl
  clear_value s
  obtain ⟨hfind, -⟩ := find_rejoined a true hsteps
  exact ⟨hsteps, hfound, (hfind [⟨0⟩]).mpr hfound⟩

end Area

end SceneSelect
