import Mathlib.Data.List.Induction
import SceneSelect.Proofs.Search.Faults

/-!
# `Proofs/Search/Strict.lean` — what it changes to be strict with indices

A search that is strict with indices and one that is lenient go the same way as long as something is
found. They part at the first step that finds nothing. If that step has a bare index, the strict search
is refused there; if it has none, both end there with nothing, and no step behind it is looked at, not
even one with an index.

> **The two searches have the same result, unless the lenient one finds nothing; and then the strict one
> is refused exactly if the first step to find nothing has a bare index** (`find_strict`).
-/

set_option autoImplicit false

namespace SceneSelect.Area

open SceneSelect.Path

variable {a : Area} {strict : Bool} {step : Step} {p : Position} {before path : List Step}

/-! ## One step -/

theorem slice_true_of_ne {found : List Ref} (h : slice false step found ≠ .ok []) :
    slice true step found = slice false step found := by
  unfold slice at h ⊢
  cases hsole : step.soleIndex? with
  | none => rfl
  | some p =>
    simp only [hsole] at h ⊢
    cases hpick : p.pick found with
    | nil =>
      rw [hpick] at h
      exact absurd rfl h
    | cons r rest => rfl

theorem slice_true_of_index {found : List Ref} (hsole : step.soleIndex? = some p)
    (h : slice false step found = .ok []) :
    slice true step found = .error (.indexOutOfRange p found.length step) := by
  unfold slice at h ⊢
  simp only [hsole] at h ⊢
  cases hpick : p.pick found with
  | nil => rfl
  | cons r rest =>
    rw [hpick] at h
    exact absurd h (by simp)

theorem follow_true_of_ne {origins : List Origin} (h : a.follow false origins step ≠ .ok []) :
    a.follow true origins step = a.follow false origins step := by
  unfold follow at h ⊢
  cases hindex : childIndex step with
  | error cause => rfl
  | ok index =>
    rw [hindex] at h
    exact slice_true_of_ne h

theorem follow_true_of_unindexed (hsole : step.soleIndex? = none) (origins : List Origin) :
    a.follow true origins step = a.follow false origins step := by
  simp only [follow, slice, hsole]

theorem follow_true_of_index {origins : List Origin} (hsole : step.soleIndex? = some p)
    (h : a.follow false origins step = .ok []) :
    ∃ count, a.follow true origins step = .error (.indexOutOfRange p count step) := by
  unfold follow at h ⊢
  cases hindex : childIndex step with
  | error cause =>
    rw [hindex] at h
    exact absurd h (by simp [bind, Except.bind])
  | ok index =>
    rw [hindex] at h
    exact ⟨_, slice_true_of_index hsole h⟩

theorem next_true_of_ne {found : List Ref} (h : a.next false found step ≠ .ok []) :
    a.next true found step = a.next false found step := by
  by_cases hempty : found = []
  · subst hempty
    exact absurd next_nil h
  · rw [next_of_ne_nil hempty] at h ⊢
    rw [next_of_ne_nil hempty]
    exact follow_true_of_ne h

/-! ## Searches that go on -/

/-- As long as the lenient search has found something, or is refused, the strict one is not apart. -/
theorem find_true_of_ne (h : a.find false path ≠ .ok []) : a.find true path = a.find false path := by
  induction path using List.reverseRecOn with
  | nil => exact absurd rfl h
  | append_singleton before step ih =>
    by_cases hne : before = []
    · subst hne
      rw [List.nil_append, find_singleton] at h ⊢
      rw [find_singleton]
      exact follow_true_of_ne h
    · rw [find_concat hne] at h ⊢
      rw [find_concat hne]
      have hbefore : a.find false before ≠ .ok [] := by
        intro hnil
        rw [hnil] at h
        exact h next_nil
      rw [ih hbefore]
      cases hfind : a.find false before with
      | error cause => rfl
      | ok sofar =>
        rw [hfind] at h
        exact next_true_of_ne h

theorem foldlM_next_nil (rest : List Step) : rest.foldlM (a.next strict) [] = .ok [] := by
  induction rest with
  | nil => rfl
  | cons step rest ih => rw [List.foldlM_cons, next_nil]; exact ih

/-- Steps behind one that finds nothing are not looked at. -/
theorem find_append_of_nil (hne : before ≠ []) (h : a.find strict before = .ok [])
    (rest : List Step) : a.find strict (before ++ rest) = .ok [] := by
  rw [find_append hne, h]
  exact foldlM_next_nil rest

theorem find_append_of_error {cause : SearchCause} (h : a.find strict before = .error cause)
    (rest : List Step) : a.find strict (before ++ rest) = .error cause := by
  have hne : before ≠ [] := by
    rintro rfl
    exact absurd h (by simp [find])
  rw [find_append hne, h]
  rfl

/-! ## The first step that finds nothing -/

/-- The lenient search finds nothing with this step, and has found something with each of those before
it. -/
structure RunsDry (a : Area) (before : List Step) (step : Step) : Prop where
  empty : a.find false (before ++ [step]) = .ok []
  first : ∀ earlier, earlier ≠ [] → earlier <+: before → a.find false earlier ≠ .ok []

/-- What has come to nothing stays there, so only the search so far matters. -/
theorem runsDry_of_ne (hempty : a.find false (before ++ [step]) = .ok [])
    (h : before ≠ [] → a.find false before ≠ .ok []) : a.RunsDry before step := by
  refine ⟨hempty, ?_⟩
  rintro earlier hne ⟨rest, rfl⟩ hnil
  exact h (by simp [hne]) (find_append_of_nil hne hnil rest)

theorem exists_runsDry (hne : path ≠ []) (h : a.find false path = .ok []) :
    ∃ before step rest, path = before ++ step :: rest ∧ a.RunsDry before step := by
  induction path using List.reverseRecOn with
  | nil => exact absurd rfl hne
  | append_singleton before step ih =>
    by_cases hbefore : before ≠ [] ∧ a.find false before = .ok []
    · -- a step before the last was the first
      obtain ⟨earlier, first, rest, rfl, hdry⟩ := ih hbefore.1 hbefore.2
      exact ⟨earlier, first, rest ++ [step], by simp, hdry⟩
    · exact ⟨before, step, [], rfl, runsDry_of_ne h (not_and.mp hbefore)⟩

/-- Both searches come to the step from the same starting points. -/
theorem RunsDry.exists_origins (h : a.RunsDry before step) :
    ∃ origins, ∀ strict, a.find strict (before ++ [step]) = a.follow strict origins step := by
  by_cases hne : before = []
  · subst hne
    exact ⟨[.above], fun _ => find_singleton⟩
  · have hfound := h.first before hne (List.prefix_refl before)
    cases hfind : a.find false before with
    | error cause => exact absurd h.empty (by simp [find_append_of_error hfind])
    | ok sofar =>
      have hsofar : sofar ≠ [] := by
        rintro rfl
        exact hfound hfind
      refine ⟨sofar.map .node, fun strict => ?_⟩
      have hboth : a.find strict before = .ok sofar := by
        cases strict with
        | false => exact hfind
        | true => exact (find_true_of_ne hfound).trans hfind
      rw [find_concat hne, hboth]
      exact next_of_ne_nil hsofar

theorem RunsDry.find_of_unindexed (h : a.RunsDry before step) (hsole : step.soleIndex? = none)
    (rest : List Step) : a.find true (before ++ step :: rest) = .ok [] := by
  obtain ⟨origins, hfind⟩ := h.exists_origins
  have hnil : a.find true (before ++ [step]) = .ok [] := by
    rw [hfind, follow_true_of_unindexed hsole, ← hfind]
    exact h.empty
  rw [List.append_cons]
  exact find_append_of_nil (by simp) hnil rest

theorem RunsDry.find_of_index (h : a.RunsDry before step) (hsole : step.soleIndex? = some p)
    (rest : List Step) :
    ∃ count, a.find true (before ++ step :: rest) = .error (.indexOutOfRange p count step) := by
  obtain ⟨origins, hfind⟩ := h.exists_origins
  obtain ⟨count, herror⟩ := follow_true_of_index hsole ((hfind false).symm.trans h.empty)
  refine ⟨count, ?_⟩
  rw [List.append_cons]
  exact find_append_of_error ((hfind true).trans herror) rest

/-! ## Both searches -/

/-- Where the lenient search finds nothing, so does the strict one, unless the step that ran dry has a
bare index. -/
theorem find_true_of_nil (h : a.find false path = .ok []) :
    a.find true path = .ok [] ∨
      ∃ before step rest, path = before ++ step :: rest ∧ a.RunsDry before step ∧
        ∃ p, step.filters = [.index p] := by
  by_cases hne : path = []
  · subst hne
    exact Or.inl rfl
  · obtain ⟨before, step, rest, rfl, hdry⟩ := exists_runsDry hne h
    cases hsole : step.soleIndex? with
    | none => exact Or.inl (hdry.find_of_unindexed hsole rest)
    | some p => exact Or.inr ⟨before, step, rest, rfl, hdry, p, soleIndex?_eq_some hsole⟩

/-- Where the lenient search finds nothing, the strict one is refused exactly if the step that ran dry has
a bare index. -/
theorem refused_iff (h : a.find false path = .ok []) :
    (∃ cause, a.find true path = .error cause) ↔
      ∃ before step rest, path = before ++ step :: rest ∧ a.RunsDry before step ∧
        ∃ p, step.filters = [.index p] := by
  constructor
  · rintro ⟨cause, hcause⟩
    rcases find_true_of_nil h with htrue | hindex
    · exact absurd (htrue.symm.trans hcause) (by simp)
    · exact hindex
  · rintro ⟨before, step, rest, rfl, hdry, p, hp⟩
    obtain ⟨count, herror⟩ := hdry.find_of_index (soleIndex?_eq_some_iff.mpr hp) rest
    exact ⟨_, herror⟩

/-- What the strict search finds the lenient one finds too. -/
theorem find_false_of_true {found : List Ref} (h : a.find true path = .ok found) :
    a.find false path = .ok found := by
  by_cases hnil : a.find false path = .ok []
  · rcases find_true_of_nil hnil with htrue | hindex
    · rw [hnil, ← htrue, h]
    · obtain ⟨cause, hcause⟩ := (refused_iff hnil).mpr hindex
      exact absurd (h.symm.trans hcause) (by simp)
  · rw [← find_true_of_ne hnil, h]

/-- **A strict search has the result of the lenient one, unless that one finds nothing. Then it is
refused exactly if the first step to find nothing has a bare index**, and an index further on does not
matter. -/
theorem find_strict (a : Area) (path : List Step) :
    (∀ found, a.find true path = .ok found → a.find false path = .ok found) ∧
    (∀ found, found ≠ [] → a.find false path = .ok found → a.find true path = .ok found) ∧
    (∀ cause, a.find false path = .error cause → a.find true path = .error cause) ∧
    (a.find false path = .ok [] → ((∃ cause, a.find true path = .error cause) ↔
      ∃ before step rest, path = before ++ step :: rest ∧ a.RunsDry before step ∧
        ∃ p, step.filters = [.index p])) ∧
    ∀ before step rest, path = before ++ step :: rest → a.RunsDry before step →
      (∀ p, step.filters ≠ [.index p]) → a.find true path = .ok [] := by
  refine ⟨fun found => find_false_of_true, ?_, ?_, refused_iff, ?_⟩
  · intro found hne hfound
    rw [find_true_of_ne (by simpa [hfound] using hne), hfound]
  · intro cause hcause
    rw [find_true_of_ne (by simp [hcause]), hcause]
  · rintro before step rest rfl hdry hplain
    apply hdry.find_of_unindexed
    rw [Option.eq_none_iff_forall_ne_some]
    intro p hsole
    exact hplain p (soleIndex?_eq_some hsole)

/-- In a list without rows it is refused to ask for the fourth item, but not for the fourth item of a
row. -/
theorem find_strict_list :
    let roots := [("main", Snapshot.node { tag := some "ul" } [.node { tag := some "li" } []])]
    let s := (Scene.ofSnapshots roots).toOption.getD {}
    let a : Area := ⟨s, s.rootRefs⟩
    let list : Step := { tag := some (.named "ul") }
    let rows : Step := { tag := some (.named "tr") }
    let fourth : Step := { tag := some (.named "li"), filters := [.index (.nth 3)] }
    a.RunsDry [list] fourth ∧ a.find false [list, fourth, rows] = .ok [] ∧
      (∃ cause, a.find true [list, fourth, rows] = .error cause) ∧
      a.RunsDry [list] rows ∧ a.find true [list, rows, fourth] = .ok [] := by
  intro roots s a list rows fourth
  have hlist : a.find false [list] ≠ .ok [] := by decide +kernel
  have hfourth : a.RunsDry [list] fourth := runsDry_of_ne (by decide +kernel) fun _ => hlist
  have hrows : a.RunsDry [list] rows := runsDry_of_ne (by decide +kernel) fun _ => hlist
  have hnil : a.find false [list, fourth, rows] = .ok [] := by decide +kernel
  clear_value s
  obtain ⟨-, -, -, hindexed, -⟩ := find_strict a [list, fourth, rows]
  obtain ⟨-, -, -, -, hplain⟩ := find_strict a [list, rows, fourth]
  refine ⟨hfourth, hnil, ?_, hrows, ?_⟩
  · exact (hindexed hnil).mpr ⟨[list], fourth, [rows], rfl, hfourth, .nth 3, rfl⟩
  · exact hplain [list] rows [fourth] rfl hrows (by simp [rows])

end SceneSelect.Area
