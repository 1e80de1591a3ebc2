import SceneSelect.Proofs.Path.Segment

/-!
# `Proofs/Path/Recognition.lean` — the reader accepts the paths and nothing else

The cut into segments and the reading of one segment are each exact, and the segments of a balanced
text are balanced themselves, so reading a whole text is exact as well: it answers with the steps
that the grammar gives the text (`readPath_eq_ok_iff`). **`parse_accepts_iff`: a text is accepted
exactly when the grammar has it.**
-/

set_option autoImplicit false

namespace SceneSelect.Path

open Text

theorem readSegment_layOut {gap o : Nat} {pieces : List (List Char)} {steps : List Step} :
    List.Forall₂ (fun s step => readSegment s = .ok step) (Span.layOut gap o pieces) steps ↔
      List.Forall₂ SegmentText pieces steps := by
  simp only [readSegment_eq_ok_iff]
  rw [← List.forall₂_map_left_iff (f := Span.chars), Span.map_chars_layOut]

theorem readPath_eq_ok_iff {cs : List Char} {steps : List Step} :
    readPath cs = .ok steps ↔ PathText cs steps := by
  rw [readPath, bind_eq_ok_iff]
  constructor
  · rintro ⟨spans, hcut, hread⟩
    obtain ⟨pieces, hne, rfl, hall, rfl⟩ := segments_eq_ok_iff.mp hcut
    have htext := readSegment_layOut.mp (mapM_eq_ok_iff.mp hread)
    have hbalanced : ∀ p ∈ pieces, Balanced p := fun p hp => (through_zero_iff.mp (hall p hp).2).1
    refine ⟨balanced_intercalate hbalanced, pieces, hne, rfl, ?_⟩
    refine ((List.forall₂_and_left _ _).mpr ⟨hall, htext⟩).imp fun segment step h => ?_
    obtain ⟨⟨hsegment, hthrough⟩, hstep⟩ := h
    obtain ⟨hb, hs⟩ := through_zero_iff.mp hthrough
    exact ⟨hsegment, hb, hs, hstep⟩
  · rintro ⟨-, pieces, hne, rfl, hall⟩
    have hboth : List.Forall₂ (fun segment step =>
        (segment ≠ [] ∧ through 0 segment = some 0) ∧ SegmentText segment step) pieces steps :=
      hall.imp fun segment step ⟨hsegment, hb, hs, hstep⟩ =>
        ⟨⟨hsegment, through_zero_iff.mpr ⟨hb, hs⟩⟩, hstep⟩
    obtain ⟨hpieces, htext⟩ := (List.forall₂_and_left _ _).mp hboth
    exact ⟨_, segments_eq_ok_iff.mpr ⟨pieces, hne, rfl, hpieces, rfl⟩,
      mapM_eq_ok_iff.mpr (readSegment_layOut.mpr htext)⟩

/-- **A text is accepted exactly when it is a path.** -/
theorem parse_accepts_iff (text : String) :
    (∃ steps, parse text = .ok steps) ↔ IsPath text.toList := by
  unfold parse IsPath
  simp only [readPath_eq_ok_iff]

end SceneSelect.Path
