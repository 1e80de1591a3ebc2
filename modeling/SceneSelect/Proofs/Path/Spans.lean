import SceneSelect.Proofs.Path.Boundary
import SceneSelect.Proofs.Path.IndexedCuts

/-!
# `Proofs/Path/Spans.lean` — spans are exact and lose nothing

A reader that answers with spans promises two things: each stands in the text where it says, and from all of
them the text can be put together again. Neither follows from the other. Two equal segments with one offset
both stand in the text, and joining texts says nothing about offsets. `Span.Tiles` has both at once: a row of
spans fills another one from end to end, with nothing but gaps between them, and the next one begins where
the gap ends.

That the cut is made at *every* slash and at *every* join is a property of the pieces, that none holds another
one. With it the tiling fixes the spans:

> **a text is cut into spans exactly when they tile it and are not empty, balanced and without a slash outside
> brackets, and each segment with a group into a selector and bodies exactly when these tile it and no body
> is empty or holds a join** (`spans_exact_and_lossless`), whether the cut is made character by character or
> in place.
-/

set_option autoImplicit false

namespace SceneSelect.Text.Span.Tiles

variable {IsGap : List Char → Prop} {sep : List Char} {spans : List Span} {s : Span}

theorem ne_nil (h : Tiles IsGap spans s) : spans ≠ [] := by
  cases h <;> simp

/-- Where all gaps are of one length, the texts alone say where the spans stand. -/
theorem eq_layOut {n : Nat} (hn : ∀ gap, IsGap gap → utf8Len gap = n) (h : Tiles IsGap spans s) :
    spans = layOut n s.offset (spans.map chars) := by
  induction h with
  | one s => rfl
  | @cons s gap text spans hgap _ ih =>
    have hnext : s.offset + utf8Len s.chars + n = s.stop + utf8Len gap := by rw [hn gap hgap, stop]
    rw [List.map_cons, layOut, hnext, ← ih]

theorem intercalate_eq (h : Tiles (· = sep) spans s) :
    sep.intercalate (spans.map chars) = s.chars := by
  induction h with
  | one s => exact List.intercalate_singleton
  | @cons s gap text spans hgap hrest ih =>
    have hne : spans.map chars ≠ [] := fun h => hrest.ne_nil (List.map_eq_nil_iff.mp h)
    rw [List.map_cons, List.intercalate_cons_of_ne_nil hne, ih, hgap]

end SceneSelect.Text.Span.Tiles

namespace SceneSelect.Path

open Text

variable {path : List Char} {spans bodies : List Span} {segment selector : Span}

/-! ## Segments -/

/-- The spans are the segments of the path. That each stands in it and that together they give it back
follows from the tiling. -/
structure SegmentedAs (path : List Char) (spans : List Span) : Prop where
  tiled : Span.Tiles (· = ['/']) spans (Span.ofText path)
  within : ∀ s ∈ spans, s.Within path
  joined : ['/'].intercalate (spans.map Span.chars) = path
  nonempty : ∀ s ∈ spans, s.chars ≠ []
  balanced : ∀ s ∈ spans, Balanced s.chars
  enclosed : ∀ s ∈ spans, SlashesEnclosed s.chars

theorem segments_iff_segmentedAs : segments path = .ok spans ↔ SegmentedAs path spans := by
  constructor
  · intro h
    obtain ⟨pieces, hpieces, hpath, hall, rfl⟩ := segments_eq_ok_iff.mp h
    have htiled := Span.tiles_intercalate ['/'] 0 hpieces
    rw [← hpath] at htiled
    have hspans : ∀ s ∈ Span.layOut 1 0 pieces, s.chars ≠ [] ∧ through 0 s.chars = some 0 :=
      forall_chars_layOut.mpr hall
    exact {
      tiled := htiled
      within := htiled.within (.ofText path)
      joined := htiled.intercalate_eq
      nonempty := fun s hs => (hspans s hs).1
      balanced := fun s hs => (through_zero_iff.mp (hspans s hs).2).1
      enclosed := fun s hs => (through_zero_iff.mp (hspans s hs).2).2 }
  · intro h
    refine segments_eq_ok_iff.mpr ⟨spans.map Span.chars, ?_, h.joined.symm, ?_, ?_⟩
    · exact fun hnil => h.tiled.ne_nil (List.map_eq_nil_iff.mp hnil)
    · rw [List.forall_mem_map]
      exact fun s hs => ⟨h.nonempty s hs, through_zero_iff.mpr ⟨h.balanced s hs, h.enclosed s hs⟩⟩
    · exact h.tiled.eq_layOut fun gap hgap => by rw [hgap]; rfl

/-! ## Filter bodies -/

theorem joined_of_tiles {s : Span} (h : Span.Tiles IsJoin bodies s)
    (hfree : ∀ b ∈ bodies, JoinFree b.chars) : Joined (bodies.map Span.chars) s.chars := by
  induction h with
  | one s => exact .one (hfree s List.mem_cons_self)
  | @cons s gap text bodies hgap hrest ih =>
    obtain ⟨hbody, hbodies⟩ := List.forall_mem_cons.mp hfree
    obtain ⟨word, hword, rfl⟩ := hgap.spelled
    have hjoined := Joined.cons hbody hword (ih hbodies)
    simpa using hjoined

/-! ## Selectors -/

/-- The segment has a group, and this is its selector and the bodies of its group. -/
def CutsInto (segment selector : Span) (bodies : List Span) : Prop :=
  ∃ group, cutGroup segment = .ok (selector, some group) ∧ filterBodies group = .ok bodies

/-- The same, in place. -/
def Indexed.CutsInto (segment selector : Span) (bodies : List Span) : Prop :=
  ∃ group, cutGroup segment = pure (selector, some group) ∧ filterBodies group = pure bodies

theorem cutGroup_eq_some_iff {group : Span} :
    cutGroup segment = .ok (selector, some group) ↔
      selector.offset = segment.offset ∧ '[' ∉ selector.chars ∧
        ∃ inside, segment.chars = selector.chars ++ '[' :: (inside ++ [']']) ∧
          group = ⟨'[' :: (inside ++ [']']), selector.stop⟩ := by
  obtain ⟨cs, o⟩ := segment
  constructor
  · intro h
    obtain ⟨hopen, ⟨-, hnone⟩ | ⟨inside, o', rfl, hgroup⟩⟩ := cutGroup_sound h
    · exact absurd hnone (by simp)
    · -- the characters decide what is cut, and so where it stands
      have hcut := h.symm.trans (cutGroup_group hopen o)
      obtain ⟨hselector, hsome⟩ := Prod.mk.inj (Except.ok.inj hcut)
      have hoffset : selector.offset = o := by rw [hselector]
      refine ⟨hoffset, hopen, inside, rfl, ?_⟩
      rw [Option.some.inj hsome, Span.stop, hoffset]
  · obtain ⟨front, o'⟩ := selector
    rintro ⟨rfl, hopen, inside, rfl, rfl⟩
    exact cutGroup_group hopen o'

/-- The selector and the filter bodies of a segment of the path. -/
structure FilteredAs (path : List Char) (segment selector : Span) (bodies : List Span) : Prop where
  start : selector.offset = segment.offset
  unopened : '[' ∉ selector.chars
  rebuilt : ∃ inside, segment.chars = selector.chars ++ '[' :: (inside ++ [']']) ∧
    Span.Tiles IsJoin bodies ⟨inside, selector.stop + 1⟩
  selector_within : selector.Within path
  within : ∀ b ∈ bodies, b.Within path
  nonempty : ∀ b ∈ bodies, b.chars ≠ []
  joinFree : ∀ b ∈ bodies, JoinFree b.chars

theorem cutsInto_iff_filteredAs (hw : segment.Within path) :
    CutsInto segment selector bodies ↔ FilteredAs path segment selector bodies := by
  constructor
  · rintro ⟨group, hcut, hbodies⟩
    have hstays := cutGroup_staysIn hw
    rw [hcut] at hstays
    have hwithin := filterBodies_staysIn (hstays.2 group rfl)
    rw [hbodies] at hwithin
    obtain ⟨hstart, hopen, inside, hsegment, rfl⟩ := cutGroup_eq_some_iff.mp hcut
    obtain ⟨pieces, hjoined, hne, rfl⟩ := filterBodies_eq_ok_iff.mp hbodies
    exact {
      start := hstart
      unopened := hopen
      rebuilt := ⟨inside, hsegment, hjoined.tiles _⟩
      selector_within := hstays.1
      within := hwithin
      nonempty := forall_chars_layOut.mpr hne
      joinFree := forall_chars_layOut.mpr hjoined.joinFree }
  · intro h
    obtain ⟨inside, hsegment, htiled⟩ := h.rebuilt
    refine ⟨_, cutGroup_eq_some_iff.mpr ⟨h.start, h.unopened, inside, hsegment, rfl⟩, ?_⟩
    have hjoined := joined_of_tiles htiled h.joinFree
    have hplaced := htiled.eq_layOut fun gap hgap => hgap.bytes
    refine filterBodies_eq_ok_iff.mpr ⟨bodies.map Span.chars, hjoined, ?_, hplaced⟩
    exact List.forall_mem_map.mpr h.nonempty

/-! ## The cut in place -/

theorem Attempt.ofReading_eq_pure_iff {α : Type} {x : Reading α} {a : α} :
    Attempt.ofReading x = pure a ↔ x = .ok a := by
  constructor
  · intro h
    exact Except.ok.inj h
  · rintro rfl
    rfl

theorem Indexed.cutsInto_iff : Indexed.CutsInto segment selector bodies ↔
    Path.CutsInto segment selector bodies := by
  refine exists_congr fun group => ?_
  rw [Indexed.cutGroup_eq, Attempt.ofReading_eq_pure_iff]
  refine and_congr_right fun hcut => ?_
  obtain ⟨-, -, inside, -, rfl⟩ := cutGroup_eq_some_iff.mp hcut
  rw [Indexed.filterBodies_eq, Attempt.ofReading_eq_pure_iff]

/-- **Spans are exact and lose nothing**: each stands in the path where it says, the segments tile the path, and
the selector and the bodies tile the segment. -/
theorem spans_exact_and_lossless (path : List Char) (spans : List Span) :
    (segments path = .ok spans ↔ SegmentedAs path spans) ∧
      (Indexed.segments path = pure spans ↔ SegmentedAs path spans) ∧
      (SegmentedAs path spans → ∀ segment ∈ spans, ∀ selector bodies,
        (CutsInto segment selector bodies ↔ FilteredAs path segment selector bodies) ∧
          (Indexed.CutsInto segment selector bodies ↔
            FilteredAs path segment selector bodies)) := by
  refine ⟨segments_iff_segmentedAs, ?_, fun h segment hs selector bodies => ?_⟩
  · rw [Indexed.segments_eq, Attempt.ofReading_eq_pure_iff]
    exact segments_iff_segmentedAs
  · have hcut := @cutsInto_iff_filteredAs path bodies segment selector (h.within segment hs)
    exact ⟨hcut, Indexed.cutsInto_iff.trans hcut⟩

/-- A bracket that is part of no join stays in its body, and offsets count bytes. -/
theorem spans_exact_and_lossless_nested :
    let path := "né/li[text=[a] b]aNd[@k=é]".toList
    let segment : Span := ⟨"li[text=[a] b]aNd[@k=é]".toList, 4⟩
    let spans : List Span := [⟨"né".toList, 0⟩, segment]
    let selector : Span := ⟨"li".toList, 4⟩
    let bodies : List Span := [⟨"text=[a] b".toList, 7⟩, ⟨"@k=é".toList, 22⟩]
    segments path = .ok spans ∧ SegmentedAs path spans ∧ CutsInto segment selector bodies ∧
      FilteredAs path segment selector bodies := by
  intro path segment spans selector bodies
  have hsegments : segments path = .ok spans := by decide +kernel
  let group : Span := ⟨"[text=[a] b]aNd[@k=é]".toList, 6⟩
  have hgroup : cutGroup segment = .ok (selector, some group) := by decide +kernel
  have hbodies : filterBodies group = .ok bodies := by decide +kernel
  obtain ⟨hsegmented, -, hfiltered⟩ := spans_exact_and_lossless path spans
  have hspans := hsegmented.mp hsegments
  have hcut : CutsInto segment selector bodies := ⟨group, hgroup, hbodies⟩
  have hmem : segment ∈ spans := List.mem_cons_of_mem _ List.mem_cons_self
  exact ⟨hsegments, hspans, hcut, (hfiltered hspans segment hmem selector bodies).1.mp hcut⟩

end SceneSelect.Path
