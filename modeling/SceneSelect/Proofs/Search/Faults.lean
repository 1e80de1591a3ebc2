import SceneSelect.Proofs.Path.Parsed
import SceneSelect.Proofs.Search.Finds

/-!
# `Proofs/Search/Faults.lean` — when a path can be followed

Two things can stop a search on its way: a step with two child indices, and, if indices are strict, a
bare index that names none of the finds. No text writes a step of the first kind, so **a path that was
read is followed to its end in every scene and from any top nodes, and where indices are strict nothing
but a bare index out of range stops it** (`find_of_parse`).
-/

set_option autoImplicit false

namespace SceneSelect.Area

open SceneSelect.Path

variable {a : Area} {strict : Bool} {step : Step} {found : List Ref} {cause : SearchCause}

theorem childIndex_of_no_filter (h : ∀ p, Filter.childIndex p ∉ step.filters) :
    childIndex step = .ok step.childIndex := by
  have hnone : step.filters.filterMap Filter.childIndex? = [] := by
    rw [List.filterMap_eq_nil_iff]
    intro f hf
    cases f with
    | childIndex p => exact absurd hf (h p)
    | _ => rfl
  rw [childIndex, Step.childIndices, hnone, List.nil_append]
  cases step.childIndex with
  | none => rfl
  | some p => rfl

theorem childIndex_of_wellFormed (h : step.WellFormed) : childIndex step = .ok step.childIndex :=
  childIndex_of_no_filter h.no_childIndex

theorem soleIndex?_eq_some {p : Position} (h : step.soleIndex? = some p) :
    step.filters = [.index p] := by
  unfold Step.soleIndex? at h
  split at h
  · rename_i q hfilters
    rw [hfilters, Option.some.inj h]
  · exact absurd h (by simp)

theorem soleIndex?_eq_some_iff {p : Position} :
    step.soleIndex? = some p ↔ step.filters = [.index p] :=
  ⟨soleIndex?_eq_some, fun h => by rw [Step.soleIndex?, h]⟩

/-- A slice that is refused is strict, and its index is out of range. -/
theorem slice_eq_error (h : slice strict step found = .error cause) :
    strict = true ∧ ∃ p, step.filters = [.index p] ∧ p.index? found.length = none ∧
      cause = .indexOutOfRange p found.length step := by
  rw [slice] at h
  split at h
  · exact absurd h (by simp)
  · rename_i p hsole
    split at h
    · rename_i hnil
      split at h
      · rename_i hstrict
        have hcause := Except.error.inj h
        exact ⟨hstrict, p, soleIndex?_eq_some hsole, Position.pick_eq_nil_iff.mp hnil, hcause.symm⟩
      · exact absurd h (by simp)
    · exact absurd h (by simp)

theorem follow_eq_error (hstep : step.WellFormed) {origins : List Origin}
    (h : a.follow strict origins step = .error cause) :
    strict = true ∧ ∃ p count, step.filters = [.index p] ∧ p.index? count = none ∧
      cause = .indexOutOfRange p count step := by
  rw [follow, childIndex_of_wellFormed hstep] at h
  obtain ⟨hstrict, p, hfilters, hindex, hcause⟩ := slice_eq_error h
  exact ⟨hstrict, p, _, hfilters, hindex, hcause⟩

/-- What stops a search stops one of its steps. -/
theorem find_eq_error {path : List Step} (h : a.find strict path = .error cause) :
    ∃ step ∈ path, ∃ origins, a.follow strict origins step = .error cause := by
  have run : ∀ (rest : List Step) (sofar : List Ref),
      rest.foldlM (a.next strict) sofar = .error cause →
      ∃ step ∈ rest, ∃ origins, a.follow strict origins step = .error cause := by
    intro rest
    induction rest with
    | nil => exact fun sofar hfold => absurd hfold (by simp [pure, Except.pure])
    | cons step rest ih =>
      intro sofar hfold
      rw [List.foldlM_cons] at hfold
      cases hnext : a.next strict sofar step with
      | error e =>
        rw [hnext] at hfold
        obtain rfl := Except.error.inj hfold
        rw [next] at hnext
        split at hnext
        · exact absurd hnext (by simp)
        · exact ⟨step, List.mem_cons_self, _, hnext⟩
      | ok following =>
        rw [hnext] at hfold
        obtain ⟨later, hlater, horigins⟩ := ih following hfold
        exact ⟨later, List.mem_cons_of_mem step hlater, horigins⟩
  cases path with
  | nil => exact absurd h (by simp [find])
  | cons first rest =>
    rw [find] at h
    cases hfollow : a.follow strict [.above] first with
    | error e =>
      rw [hfollow] at h
      obtain rfl := Except.error.inj h
      exact ⟨first, List.mem_cons_self, _, hfollow⟩
    | ok sofar =>
      rw [hfollow] at h
      obtain ⟨later, hlater, horigins⟩ := run rest sofar h
      exact ⟨later, List.mem_cons_of_mem first hlater, horigins⟩

theorem find_eq_error_of_wellFormed {path : List Step} (hpath : ∀ step ∈ path, step.WellFormed)
    (h : a.find strict path = .error cause) :
    strict = true ∧ ∃ step ∈ path, ∃ p count, step.filters = [.index p] ∧ p.index? count = none ∧
      cause = .indexOutOfRange p count step := by
  obtain ⟨step, hstep, origins, hfollow⟩ := find_eq_error h
  obtain ⟨hstrict, hrange⟩ := follow_eq_error (hpath step hstep) hfollow
  exact ⟨hstrict, step, hstep, hrange⟩

theorem find_eq_ok_of_wellFormed {path : List Step} (hpath : ∀ step ∈ path, step.WellFormed) :
    ∃ found, a.find false path = .ok found := by
  cases hfind : a.find false path with
  | ok found => exact ⟨found, rfl⟩
  | error cause =>
    obtain ⟨hstrict, -⟩ := find_eq_error_of_wellFormed hpath hfind
    exact absurd hstrict (by simp)

/-- **A path that was read has well-formed steps, at least one, and can be followed in every area. With
strict indices nothing can go wrong but a bare index out of range.** -/
theorem find_of_parse {text : String} {path : List Step} (h : Path.parse text = .ok path) :
    path ≠ [] ∧ (∀ step ∈ path, step.WellFormed) ∧ ∀ a : Area,
      (∃ found, a.find false path = .ok found) ∧
      ∀ cause, a.find true path = .error cause →
        ∃ step ∈ path, ∃ p count, step.filters = [.index p] ∧ p.index? count = none ∧
          cause = .indexOutOfRange p count step := by
  obtain ⟨hne, hpath⟩ := wellFormed_of_parse h
  refine ⟨hne, hpath, fun a => ⟨find_eq_ok_of_wellFormed hpath, fun cause hcause => ?_⟩⟩
  exact (find_eq_error_of_wellFormed hpath hcause).2

/-- The fifth of two items is nothing, or a fault where indices are strict. -/
theorem find_of_parse_items :
    let item := Snapshot.node { tag := some "li" } []
    let s := (Scene.ofSnapshots [("main", .node { tag := some "ul" } [item, item])]).toOption.getD {}
    let a : Area := ⟨s, s.rootRefs⟩
    let items : Step := { tag := some (.named "li"), filters := [.index (.nth 5)] }
    let path : List Step := [{ tag := some (.named "ul") }, items]
    Path.parse "ul/li[5]" = .ok path ∧ (∀ step ∈ path, step.WellFormed) ∧
      (∃ found, a.find false path = .ok found) ∧
      a.find true path = .error (.indexOutOfRange (.nth 5) 2 items) ∧
      ∃ step ∈ path, ∃ p count, step.filters = [.index p] ∧ p.index? count = none ∧
        SearchCause.indexOutOfRange (.nth 5) 2 items = .indexOutOfRange p count step := by
  intro item s a items path
  have hread : Path.parse "ul/li[5]" = .ok path := by decide +kernel
  have hfault : a.find true path = .error (.indexOutOfRange (.nth 5) 2 items) := by decide +kernel
  obtain ⟨-, hpath, hall⟩ := find_of_parse hread
  obtain ⟨hloose, hstrict⟩ := hall a
  exact ⟨hread, hpath, hloose, hfault, hstrict _ hfault⟩

end SceneSelect.Area
