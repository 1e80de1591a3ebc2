import SceneSelect.Proofs.Path.Filter
import SceneSelect.Proofs.Path.Joins
import SceneSelect.Proofs.Path.Selector

/-!
# `Proofs/Path/Segment.lean` — reading a segment

A segment is a selector with or without a group. The reader keeps more than the grammar does while it
goes through the bodies of a group: where each stood, for its faults, and the child index it has met
so far. Neither shows in the step it answers with, so `readBodies` is related to **all** filters of
the group at once, with the child index met before put in front of those to come.
-/

set_option autoImplicit false

namespace SceneSelect.Path

open Text

/-! ## The bodies of a group -/

theorem inside_group (inside : List Char) (o : Nat) :
    (Span.drop 1 ⟨'[' :: (inside ++ [']']), o⟩).dropLast = ⟨inside, o + 1⟩ := by
  simp [Span.drop, Span.dropLast]
  rfl

theorem filterBodies_eq_ok_iff {inside : List Char} {o : Nat} {spans : List Span} :
    filterBodies ⟨'[' :: (inside ++ [']']), o⟩ = .ok spans ↔
      ∃ bodies, Joined bodies inside ∧ (∀ b ∈ bodies, b ≠ []) ∧
        spans = Span.layOut joinLen (o + 1) bodies := by
  rw [filterBodies, bind_eq_ok_iff, inside_group]
  constructor
  · rintro ⟨bodies, hcut, hpass⟩
    obtain ⟨rfl, hne⟩ := noneEmpty_eq_ok_iff.mp hpass
    exact ⟨bodies, cutJoins_eq_ok_iff.mp hcut, (forall_chars_layOut (P := (· ≠ []))).mp hne, rfl⟩
  · rintro ⟨bodies, hj, hne, rfl⟩
    exact ⟨bodies, cutJoins_eq_ok_iff.mpr hj, noneEmpty_eq_ok_iff.mpr
      ⟨rfl, (forall_chars_layOut (P := (· ≠ []))).mpr hne⟩⟩

theorem readFilter_layOut {gap o : Nat} {bodies : List (List Char)} {filters : List Filter} :
    List.Forall₂ (fun s f => readFilter s = .ok f) (Span.layOut gap o bodies) filters ↔
      List.Forall₂ FilterText bodies filters := by
  simp only [readFilter_eq_ok_iff]
  rw [← List.forall₂_map_left_iff (f := Span.chars), Span.map_chars_layOut]

/-- One body at a time, told apart only by whether it is a child index. -/
theorem readBodies_cons (found : Option Position) (body : Span) (rest : List Span) :
    readBodies found (body :: rest) = readFilter body >>= fun f =>
      match f.childIndex? with
      | some p =>
        if found.isSome then .error ⟨.secondChildIndex, body.offset⟩ else readBodies (some p) rest
      | none => readBodies found rest >>= fun r => pure ((f, body.offset) :: r.1, r.2) := by
  rw [readBodies]
  congr
  funext f
  cases f <;> rfl

theorem readBodies_sound {found ci : Option Position} {spans : List Span}
    {fs : List (Filter × Nat)} (h : readBodies found spans = .ok (fs, ci)) :
    ∃ filters, List.Forall₂ (fun s f => readFilter s = .ok f) spans filters ∧
      fs.map Prod.fst = filters.filter (fun f => f.childIndex?.isNone) ∧
      (found.toList ++ filters.filterMap Filter.childIndex?).length ≤ 1 ∧
      ci = (found.toList ++ filters.filterMap Filter.childIndex?).head? := by
  induction spans generalizing found fs with
  | nil =>
    obtain ⟨rfl, rfl⟩ := Prod.mk.inj (Except.ok.inj h)
    exact ⟨[], .nil, rfl, by cases found <;> simp, by cases found <;> rfl⟩
  | cons body rest ih =>
    rw [readBodies_cons] at h
    obtain ⟨f, hf, h⟩ := bind_eq_ok_iff.mp h
    cases hci : f.childIndex? with
    | some p =>
      rw [hci] at h
      cases found with
      | some q => exact absurd h (by simp)
      | none =>
        obtain ⟨filters, hall, hfs, hone, rfl⟩ := ih h
        exact ⟨f :: filters, .cons hf hall, by simp [hci, hfs], by simpa [hci] using hone,
          by simp [hci]⟩
    | none =>
      rw [hci] at h
      obtain ⟨⟨gs, ci'⟩, hrest, h⟩ := bind_eq_ok_iff.mp h
      obtain ⟨rfl, rfl⟩ := Prod.mk.inj (pure_eq_ok_iff.mp h)
      obtain ⟨filters, hall, hfs, hone, rfl⟩ := ih hrest
      exact ⟨f :: filters, .cons hf hall, by simp [hci, hfs], by simpa [hci] using hone,
        by simp [hci]⟩

theorem readBodies_complete {found : Option Position} {spans : List Span} {filters : List Filter}
    (hall : List.Forall₂ (fun s f => readFilter s = .ok f) spans filters)
    (hone : (found.toList ++ filters.filterMap Filter.childIndex?).length ≤ 1) :
    ∃ fs, readBodies found spans =
        .ok (fs, (found.toList ++ filters.filterMap Filter.childIndex?).head?) ∧
      fs.map Prod.fst = filters.filter fun f => f.childIndex?.isNone := by
  induction hall generalizing found with
  | nil => exact ⟨[], by cases found <;> rfl, rfl⟩
  | @cons body f rest filters hf hall ih =>
    rw [readBodies_cons]
    cases hci : f.childIndex? with
    | some p =>
      cases found with
      | some q =>
        -- the one met before and this one are two
        exact absurd hone (by simp [hci])
      | none =>
        obtain ⟨fs, hfs, hmap⟩ := @ih (some p) (by simpa [hci] using hone)
        refine ⟨fs, bind_eq_ok_iff.mpr ⟨f, hf, ?_⟩, by simp [hci, hmap]⟩
        simp only [hci, List.filterMap_cons]
        exact hfs
    | none =>
      obtain ⟨fs, hfs, hmap⟩ := @ih found (by simpa [hci] using hone)
      refine ⟨(f, body.offset) :: fs, bind_eq_ok_iff.mpr ⟨f, hf, ?_⟩, by simp [hci, hmap]⟩
      simp only [hci, List.filterMap_cons]
      exact bind_eq_ok_iff.mpr ⟨_, hfs, rfl⟩

theorem indexAlone_eq_ok_iff {count : Nat} {fs : List (Filter × Nat)} :
    indexAlone count fs = .ok () ↔ ∀ f ∈ fs.map Prod.fst, f.isIndex = true → count ≤ 1 := by
  rw [indexAlone]
  split
  · rename_i g position hlast
    obtain ⟨hmem, hindex⟩ := List.mem_filter.mp (List.mem_of_getLast? hlast)
    constructor
    · intro h f _ _
      by_contra hcount
      rw [if_pos (by omega)] at h
      exact absurd h (by simp)
    · intro h
      have := h g (List.mem_map_of_mem hmem) hindex
      rw [if_neg (by omega)]
  · rename_i hnone
    refine iff_of_true rfl fun f hf hindex => ?_
    obtain ⟨e, he, rfl⟩ := List.mem_map.mp hf
    have hempty := List.getLast?_eq_none_iff.mp hnone
    exact absurd (hempty ▸ List.mem_filter.mpr ⟨he, hindex⟩) (by simp)

theorem noSiblingIndex_eq_ok_iff {step : Step} {ci : Option Position} {position : Nat} :
    noSiblingIndex step ci position = .ok () ↔ (step.sibling ≠ 0 → ci = none) := by
  rw [noSiblingIndex]
  by_cases h : step.sibling ≠ 0 ∧ ci.isSome
  · rw [if_pos h]
    obtain ⟨p, hp⟩ := Option.isSome_iff_exists.mp h.2
    exact iff_of_false (by simp) fun hnone => absurd (hnone h.1) (by simp [hp])
  · rw [if_neg h]
    exact iff_of_true rfl fun hs => by simpa [hs] using h

theorem readGroup_eq_ok_iff {step result : Step} {inside : List Char} {o : Nat} :
    readGroup step ⟨'[' :: (inside ++ [']']), o⟩ = .ok result ↔
      ∃ bodies filters, Joined bodies inside ∧ (∀ b ∈ bodies, b ≠ []) ∧
        List.Forall₂ FilterText bodies filters ∧ Compatible step.sibling filters ∧
        result = step.withFilters filters := by
  rw [readGroup]
  constructor
  · intro h
    obtain ⟨spans, hspans, hread⟩ := bind_eq_ok_iff.mp h
    obtain ⟨⟨fs, ci⟩, hbodies, hchecks⟩ := bind_eq_ok_iff.mp hread
    obtain ⟨_, halone, hcheck⟩ := bind_eq_ok_iff.mp hchecks
    obtain ⟨_, hsibling, hresult⟩ := bind_eq_ok_iff.mp hcheck
    obtain ⟨bodies, hj, hne, rfl⟩ := filterBodies_eq_ok_iff.mp hspans
    obtain ⟨filters, hall, hfs, hone, rfl⟩ := readBodies_sound hbodies
    obtain rfl := pure_eq_ok_iff.mp hresult
    refine ⟨bodies, filters, hj, hne, readFilter_layOut.mp hall, ⟨?_, by simpa using hone, ?_⟩, ?_⟩
    · intro f hf hindex
      have hplain : f ∈ fs.map Prod.fst := by
        rw [hfs]
        refine List.mem_filter.mpr ⟨hf, ?_⟩
        cases f with
        | index p => rfl
        | _ => exact absurd hindex (by simp [Filter.isIndex])
      have hle := indexAlone_eq_ok_iff.mp halone f hplain hindex
      have hpos := List.length_pos_of_mem hf
      rw [hall.length_eq] at hle
      omega
    · intro hs
      simpa using noSiblingIndex_eq_ok_iff.mp hsibling hs
    · rw [hfs]
      rfl
  · rintro ⟨bodies, filters, hj, hne, hf, hc, rfl⟩
    have hall : List.Forall₂ (fun s f => readFilter s = .ok f)
        (Span.layOut joinLen (o + 1) bodies) filters := readFilter_layOut.mpr hf
    obtain ⟨fs, hbodies, hfs⟩ := @readBodies_complete none _ _ hall (by simpa using hc.oneChildIndex)
    have halone : indexAlone (Span.layOut joinLen (o + 1) bodies).length fs = .ok () := by
      refine indexAlone_eq_ok_iff.mpr fun f hmem hindex => ?_
      rw [hfs] at hmem
      rw [hall.length_eq, hc.indexAlone f (List.mem_filter.mp hmem).1 hindex]
    have hsibling : noSiblingIndex step (filters.filterMap Filter.childIndex?).head? o = .ok () :=
      noSiblingIndex_eq_ok_iff.mpr fun hs => by rw [hc.noSiblingIndex hs]; rfl
    refine bind_eq_ok_iff.mpr ⟨_, filterBodies_eq_ok_iff.mpr ⟨bodies, hj, hne, rfl⟩, ?_⟩
    refine bind_eq_ok_iff.mpr ⟨_, hbodies, ?_⟩
    refine bind_eq_ok_iff.mpr ⟨(), halone, ?_⟩
    refine bind_eq_ok_iff.mpr ⟨(), hsibling, ?_⟩
    rw [pure_eq_ok_iff, hfs]
    rfl

/-! ## Segments -/

theorem splitWhile_selector {selector rest : List Char} (hopen : '[' ∉ selector)
    (hrest : ∀ c ∈ rest.head?, c = '[') (o : Nat) :
    Span.splitWhile (· != '[') ⟨selector ++ rest, o⟩ =
      (⟨selector, o⟩, ⟨rest, o + utf8Len selector⟩) := by
  refine splitWhile_append (fun c hc => bne_iff_ne.mpr ?_) fun c hc => ?_
  · rintro rfl
    exact hopen hc
  · rw [hrest c hc]
    rfl

theorem cutGroup_bare {cs : List Char} (hopen : '[' ∉ cs) (o : Nat) :
    cutGroup ⟨cs, o⟩ = .ok (⟨cs, o⟩, none) := by
  have hsplit := splitWhile_selector hopen (show ∀ c ∈ [].head?, c = '[' by simp) o
  rw [List.append_nil] at hsplit
  rw [cutGroup, hsplit]
  rfl

theorem cutGroup_group {selector inside : List Char} (hopen : '[' ∉ selector) (o : Nat) :
    cutGroup ⟨selector ++ '[' :: (inside ++ [']']), o⟩ =
      .ok (⟨selector, o⟩, some ⟨'[' :: (inside ++ [']']), o + utf8Len selector⟩) := by
  rw [cutGroup, splitWhile_selector hopen (by simp)]
  simp [Span.isEmpty, List.getLast?_cons]

theorem cutGroup_sound {cs : List Char} {o : Nat} {selector : Span} {group : Option Span}
    (h : cutGroup ⟨cs, o⟩ = .ok (selector, group)) :
    '[' ∉ selector.chars ∧ (cs = selector.chars ∧ group = none ∨
      ∃ inside o', cs = selector.chars ++ '[' :: (inside ++ [']']) ∧
        group = some ⟨'[' :: (inside ++ [']']), o'⟩) := by
  rcases hsplit : Span.splitWhile (· != '[') ⟨cs, o⟩ with ⟨before, ⟨behind, o'⟩⟩
  obtain ⟨hcs, hrun⟩ := splitWhile_sound hsplit
  have hopen : '[' ∉ before.chars := fun hm => absurd (hrun '[' hm) (by simp)
  dsimp only [cutGroup] at h
  rw [hsplit] at h
  cases behind with
  | nil =>
    obtain ⟨rfl, rfl⟩ := Prod.mk.inj (Except.ok.inj h)
    exact ⟨hopen, Or.inl ⟨by simpa using hcs, rfl⟩⟩
  | cons c rest =>
    obtain rfl : c = '[' := by simpa using splitWhile_head hsplit c rfl
    simp only [Span.isEmpty, List.isEmpty_cons, Bool.false_eq_true, if_false] at h
    split at h
    · rename_i hlast
      obtain ⟨rfl, rfl⟩ := Prod.mk.inj (Except.ok.inj h)
      obtain ⟨ends, hends⟩ := List.getLast?_eq_some_iff.mp hlast
      cases ends with
      | nil => exact absurd (List.cons.inj hends).1 (by decide)
      | cons b inside =>
        obtain ⟨rfl, rfl⟩ := List.cons.inj hends
        exact ⟨hopen, Or.inr ⟨inside, o', hcs, rfl⟩⟩
    · exact absurd h (by simp)

theorem readSegment_eq_ok_iff {s : Span} {step : Step} :
    readSegment s = .ok step ↔ SegmentText s.chars step := by
  obtain ⟨cs, o⟩ := s
  rw [readSegment]
  constructor
  · intro h
    obtain ⟨⟨selector, group⟩, hcut, h⟩ := bind_eq_ok_iff.mp h
    obtain ⟨step', hselector, h⟩ := bind_eq_ok_iff.mp h
    have hs := readSelector_eq_ok_iff.mp hselector
    obtain ⟨hopen, ⟨rfl, rfl⟩ | ⟨inside, o', rfl, rfl⟩⟩ := cutGroup_sound hcut
    · obtain rfl := pure_eq_ok_iff.mp h
      exact .bare hopen hs
    · obtain ⟨bodies, filters, hj, hne, hf, hc, rfl⟩ := readGroup_eq_ok_iff.mp h
      exact .filtered hopen hs hj hne hf hc
  · intro h
    cases h with
    | bare hopen hs =>
      exact bind_eq_ok_iff.mpr ⟨_, cutGroup_bare hopen o,
        bind_eq_ok_iff.mpr ⟨_, readSelector_eq_ok_iff.mpr hs, rfl⟩⟩
    | filtered hopen hs hj hne hf hc =>
      exact bind_eq_ok_iff.mpr ⟨_, cutGroup_group hopen o,
        bind_eq_ok_iff.mpr ⟨_, readSelector_eq_ok_iff.mpr hs,
          readGroup_eq_ok_iff.mpr ⟨_, _, hj, hne, hf, hc, rfl⟩⟩⟩

end SceneSelect.Path
