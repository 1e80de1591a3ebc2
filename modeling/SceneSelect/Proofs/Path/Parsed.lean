import SceneSelect.Proofs.Path.Recognition

/-!
# `Proofs/Path/Parsed.lean` — what a step read from a text keeps to

The type of steps has more values than a text can write: it lets a step name an identity and a key at
once, hold child indices among its filters, or go sideways with a mode. The checks that rule this out
stand at different places of the reader, some in the selector, some in the loop over the filters and
some behind it. `Step.WellFormed` gathers what they come to, and **every step of a path that was read
has it** (`wellFormed_of_parse`).
-/

set_option autoImplicit false

namespace SceneSelect.Path

/-- A step as a text can write it. -/
structure Step.WellFormed (step : Step) : Prop where
  one_name : step.identity = none ∨ step.key = none
  identity_ne : ∀ identity ∈ step.identity, identity ≠ ""
  key_ne : ∀ key ∈ step.key, key.raw ≠ ""
  /-- the child index is kept apart from the filters -/
  no_childIndex : ∀ p, Filter.childIndex p ∉ step.filters
  /-- a bare index is all there is to filter by -/
  index_alone : ∀ p, Filter.index p ∈ step.filters →
    step.filters = [.index p] ∧ step.childIndex = none
  sibling_bare : step.sibling ≠ 0 →
    step.mode = .exact ∧ step.tag = none ∧ step.childIndex = none

theorem ofList_ne_empty {cs : List Char} (h : cs ≠ []) : String.ofList cs ≠ "" := by
  intro heq
  apply h
  have hlist := congrArg String.toList heq
  simpa using hlist

theorem SelectorText.wellFormed {cs : List Char} {step : Step} (h : SelectorText cs step) :
    step.WellFormed := by
  -- a name is at the end of every selector, and is the only part that can go wrong
  have named : ∀ {n identity key}, NameText n identity key →
      (identity = none ∨ key = none) ∧ (∀ i ∈ identity, i ≠ "") ∧ ∀ k ∈ key, k.raw ≠ "" := by
    intro n identity key hn
    cases hn with
    | absent => simp
    | identity hne => simpa using ofList_ne_empty hne
    | key hne => simpa using ofList_ne_empty hne
  cases h with
  | node _ hn =>
    obtain ⟨hone, hidentity, hkey⟩ := named hn
    exact ⟨hone, hidentity, hkey, by simp, by simp, by simp⟩
  | sibling _ hn =>
    obtain ⟨hone, hidentity, hkey⟩ := named hn
    exact ⟨hone, hidentity, hkey, by simp, by simp, by simp⟩

/-- Filters that may stand together leave the step as a text can write it. -/
theorem Step.WellFormed.withFilters {step : Step} {filters : List Filter} (h : step.WellFormed)
    (hc : Compatible step.sibling filters) : (step.withFilters filters).WellFormed := by
  constructor
  case one_name => exact h.one_name
  case identity_ne => exact h.identity_ne
  case key_ne => exact h.key_ne
  case no_childIndex =>
    intro p hp
    exact absurd (List.mem_filter.mp hp).2 (by simp [Filter.childIndex?])
  case index_alone =>
    intro p hp
    have hmem := (List.mem_filter.mp hp).1
    obtain ⟨f, hf⟩ := List.length_eq_one_iff.mp (hc.indexAlone _ hmem rfl)
    obtain rfl : f = .index p := by
      rw [hf] at hmem
      exact (List.mem_singleton.mp hmem).symm
    rw [hf]
    exact ⟨rfl, rfl⟩
  case sibling_bare =>
    intro hs
    obtain ⟨hmode, htag, -⟩ := h.sibling_bare hs
    refine ⟨hmode, htag, ?_⟩
    show (filters.filterMap Filter.childIndex?).head? = none
    rw [hc.noSiblingIndex hs]
    rfl

theorem SegmentText.wellFormed {cs : List Char} {step : Step} (h : SegmentText cs step) :
    step.WellFormed := by
  cases h with
  | bare _ hs => exact hs.wellFormed
  | filtered _ hs _ _ _ hc => exact hs.wellFormed.withFilters hc

/-- A path that was read has a step, and each of its steps is well formed. -/
theorem wellFormed_of_parse {text : String} {path : List Step} (h : parse text = .ok path) :
    path ≠ [] ∧ ∀ step ∈ path, step.WellFormed := by
  obtain ⟨-, segments, hne, -, hall⟩ := readPath_eq_ok_iff.mp h
  constructor
  · rintro rfl
    exact hne (List.forall₂_nil_right_iff.mp hall)
  · exact forall_of_forall₂ hall fun _ _ ⟨_, _, _, hsegment⟩ => hsegment.wellFormed

end SceneSelect.Path
