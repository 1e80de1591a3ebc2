import SceneSelect.Proofs.Path.Segment

/-!
# `Proofs/Path/Moved.lean` — reading a text that stands further on

A reader decides by the characters in front of it. Where they stand it only passes on: into the spans it
cuts and into the fault it reports. So

> **a span `n` bytes further on is read as the same thing, or it is wrong for the same cause `n` bytes
> further on.**

This is shown once for each reader, from the cuts of a span up to the segments of a path, so that every
place at which a fault is reported is looked at once. `Reading.moved` says what becomes of an outcome,
and `Reading.moved_bind` carries it over a chain of readers; no proof looks into more than one of them.
-/

set_option autoImplicit false

namespace SceneSelect.Text.Span

/-! ## Spans -/

/-- The same characters, `n` bytes further on. -/
def moved (n : Nat) (s : Span) : Span := ⟨s.chars, n + s.offset⟩

variable (n : Nat) (s : Span)

@[simp] theorem chars_moved : (s.moved n).chars = s.chars := rfl

@[simp] theorem offset_moved : (s.moved n).offset = n + s.offset := rfl

@[simp] theorem isEmpty_moved : (s.moved n).isEmpty = s.isEmpty := rfl

@[simp] theorem stop_moved : (s.moved n).stop = n + s.stop := Nat.add_assoc ..

@[simp] theorem dropLast_moved : (s.moved n).dropLast = s.dropLast.moved n := rfl

@[simp] theorem drop_moved (k : Nat) : (s.moved n).drop k = (s.drop k).moved n := by
  simp [drop, moved, Nat.add_assoc]

@[simp] theorem splitWhile_moved (p : Char → Bool) :
    (s.moved n).splitWhile p = ((s.splitWhile p).1.moved n, (s.splitWhile p).2.moved n) := by
  simp [splitWhile, moved, Nat.add_assoc]

theorem layOut_moved (gap o : Nat) (pieces : List (List Char)) :
    layOut gap (n + o) pieces = (layOut gap o pieces).map (moved n) := by
  induction pieces generalizing o with
  | nil => rfl
  | cons piece rest ih =>
    have hnext : n + o + utf8Len piece + gap = n + (o + utf8Len piece + gap) := by omega
    simp [layOut, hnext, ih, moved]

end SceneSelect.Text.Span

namespace SceneSelect.Path

open Text

variable {α β γ δ : Type}

/-! ## Outcomes -/

/-- The same fault, `n` bytes further on. -/
def SyntaxFault.moved (n : Nat) (f : SyntaxFault) : SyntaxFault := ⟨f.cause, n + f.position⟩

/-- What becomes of an outcome when the text stands `n` bytes further on: `carry` says it of an answer. -/
def Reading.moved (n : Nat) (carry : α → β) : Reading α → Reading β
  | .ok a => .ok (carry a)
  | .error f => .error (f.moved n)

@[simp] theorem Reading.moved_ok (n : Nat) (carry : α → β) (a : α) :
    Reading.moved n carry (.ok a) = .ok (carry a) := rfl

@[simp] theorem Reading.moved_error (n : Nat) (carry : α → β) (cause : SyntaxCause) (p : Nat) :
    Reading.moved n carry (.error ⟨cause, p⟩) = .error ⟨cause, n + p⟩ := rfl

/-- A chain moves with its links. -/
theorem Reading.moved_bind {n : Nat} {carry : α → β} {carry' : γ → δ} {x : Reading α}
    {f : α → Reading γ} {g : β → Reading δ} (h : ∀ a, g (carry a) = (f a).moved n carry') :
    (x.moved n carry >>= g) = (x >>= f).moved n carry' := by
  cases x with
  | ok a => exact h a
  | error f => rfl

theorem Reading.moved_map {n : Nat} {x : Reading α} (f : α → β) :
    (x.moved n id).map f = Reading.moved n id (x.map f) := by
  cases x <;> rfl

variable (n : Nat)

/-! ## Brackets -/

theorem checkBrackets_moved (d opened pos : Nat) (cs : List Char) :
    checkBrackets d (n + opened) (n + pos) cs = (checkBrackets d opened pos cs).moved n id := by
  induction cs generalizing d opened pos with
  | nil =>
    unfold checkBrackets
    split <;> rfl
  | cons c rest ih =>
    unfold checkBrackets
    split
    · rfl
    · rw [← apply_ite (n + ·), Nat.add_assoc, ih]

/-! ## Selectors -/

theorem readMode_moved (s : Span) :
    readMode (s.moved n) = ((readMode s).1, (readMode s).2.moved n) := by
  unfold readMode
  simp only [Span.chars_moved]
  split <;> simp

theorem readSibling_moved (delimiter : Char) (start : Nat) (s : Span) :
    readSibling delimiter (n + start) (s.moved n) =
      (readSibling delimiter start s).moved n (Prod.map id (Span.moved n)) := by
  unfold readSibling
  simp only [Span.splitWhile_moved, Span.isEmpty_moved, Span.chars_moved, Span.drop_moved,
    Span.offset_moved]
  split
  · rfl
  · split
    · rfl
    · split
      · rfl
      · split <;> rfl

theorem readTag_moved (s : Span) :
    readTag (s.moved n) = (readTag s).moved n (Prod.map id (Span.moved n)) := by
  unfold readTag
  simp only [Span.splitWhile_moved, Span.isEmpty_moved, Span.chars_moved, Span.drop_moved,
    Span.offset_moved]
  split
  · split <;> rfl
  · rfl

theorem readTarget_moved (mode : Mode) (s : Span) :
    readTarget mode (s.moved n) = (readTarget mode s).moved n (Prod.map id (Span.moved n)) := by
  unfold readTarget
  simp only [Span.chars_moved, Span.drop_moved, Span.offset_moved, readSibling_moved, readTag_moved]
  split
  · split
    · split
      · exact Reading.moved_bind fun _ => rfl
      · rfl
    · exact Reading.moved_bind fun _ => rfl
  · rfl

theorem readName_moved (step : Step) (s : Span) :
    readName step (s.moved n) = (readName step s).moved n id := by
  unfold readName
  simp only [Span.chars_moved, Span.drop_moved, Span.offset_moved]
  split
  · rfl
  · split
    · split <;> rfl
    · split
      · split <;> rfl
      · rfl

theorem readSelector_moved (s : Span) :
    readSelector (s.moved n) = (readSelector s).moved n id := by
  unfold readSelector
  rw [readMode_moved]
  dsimp only
  rw [readTarget_moved]
  exact Reading.moved_bind fun _ => readName_moved n _ _

/-! ## Filters -/

theorem readPosition_moved (pos : Nat) (cs : List Char) :
    readPosition (n + pos) cs = (readPosition pos cs).moved n id := by
  unfold readPosition
  split
  · split <;> simp [Nat.add_assoc]
  · split
    · split <;> simp
    · rfl

theorem readNamed_moved (pos : Nat) (cs : List Char) :
    readNamed (n + pos) cs = (readNamed pos cs).moved n id := by
  unfold readNamed
  split <;> rfl

theorem readBody_moved (body : Span) : readBody (body.moved n) = (readBody body).moved n id := by
  unfold readBody
  simp only [Span.chars_moved, Span.offset_moved, Nat.add_assoc, readPosition_moved, readNamed_moved]
  split
  · refine Reading.moved_bind fun found => ?_
    cases found <;> rfl
  · exact Reading.moved_bind fun _ => rfl
  · exact Reading.moved_bind fun _ => rfl
  · split <;> rfl

theorem readFilter_moved (body : Span) :
    readFilter (body.moved n) = (readFilter body).moved n id := by
  unfold readFilter
  simp only [Span.chars_moved, Span.offset_moved, readPosition_moved]
  refine Reading.moved_bind fun found => ?_
  cases found with
  | none => exact readBody_moved n body
  | some p => rfl

/-! ## Groups -/

theorem cutJoins_moved (pos : Nat) (text : List Char) :
    cutJoins (n + pos) text = (cutJoins pos text).moved n id := by
  fun_induction cutJoins pos text with
  | case1 pos text word behind hjoin _ hand ih =>
    rw [cutJoins_of_join hjoin, if_pos hand, Nat.add_assoc, ih, Reading.moved_map]
  | case2 pos text word behind hjoin _ hand hor =>
    rw [cutJoins_of_join hjoin, if_neg hand, if_pos hor]
    rfl
  | case3 pos text word behind hjoin _ hand hor =>
    rw [cutJoins_of_join hjoin, if_neg hand, if_neg hor]
    rfl
  | case4 pos =>
    rw [cutJoins_nil]
    rfl
  | case5 pos c rest hjoin ih =>
    rw [cutJoins_cons hjoin, Nat.add_assoc, ih, Reading.moved_map]

theorem noneEmpty_moved (cause : SyntaxCause) (spans : List Span) :
    noneEmpty cause (spans.map (Span.moved n)) =
      (noneEmpty cause spans).moved n (List.map (Span.moved n)) := by
  unfold noneEmpty
  rw [List.find?_map]
  have hsame : Span.isEmpty ∘ Span.moved n = Span.isEmpty := rfl
  rw [hsame]
  cases spans.find? Span.isEmpty <;> rfl

theorem filterBodies_moved (group : Span) :
    filterBodies (group.moved n) = (filterBodies group).moved n (List.map (Span.moved n)) := by
  unfold filterBodies
  simp only [Span.drop_moved, Span.dropLast_moved, Span.chars_moved, Span.offset_moved,
    cutJoins_moved, Span.layOut_moved]
  exact Reading.moved_bind fun _ => noneEmpty_moved n _ _

/-- The positions kept beside the filters move with their bodies. -/
theorem readBodies_moved (found : Option Position) (spans : List Span) :
    readBodies found (spans.map (Span.moved n)) =
      (readBodies found spans).moved n (Prod.map (List.map (Prod.map id (n + ·))) id) := by
  induction spans generalizing found with
  | nil => rfl
  | cons body rest ih =>
    rw [List.map_cons, readBodies_cons, readBodies_cons, readFilter_moved]
    refine Reading.moved_bind fun f => ?_
    dsimp only [id]
    split
    · split
      · rfl
      · exact ih _
    · rw [ih]
      exact Reading.moved_bind fun _ => rfl

theorem indexAlone_moved (count : Nat) (filters : List (Filter × Nat)) :
    indexAlone count (filters.map (Prod.map id (n + ·))) =
      (indexAlone count filters).moved n id := by
  unfold indexAlone
  rw [List.filter_map, List.getLast?_map]
  have hsame : (fun f : Filter × Nat => f.1.isIndex) ∘ Prod.map id (n + ·) =
      fun f => f.1.isIndex := rfl
  rw [hsame]
  cases (filters.filter fun f => f.1.isIndex).getLast? with
  | none => rfl
  | some f =>
    dsimp only [Option.map_some, Prod.map]
    split <;> rfl

theorem noSiblingIndex_moved (step : Step) (childIndex : Option Position) (position : Nat) :
    noSiblingIndex step childIndex (n + position) =
      (noSiblingIndex step childIndex position).moved n id := by
  unfold noSiblingIndex
  split <;> rfl

theorem readGroup_moved (step : Step) (group : Span) :
    readGroup step (group.moved n) = (readGroup step group).moved n id := by
  unfold readGroup
  rw [filterBodies_moved]
  refine Reading.moved_bind fun bodies => ?_
  rw [readBodies_moved]
  refine Reading.moved_bind fun (filters, childIndex) => ?_
  dsimp only [Prod.map]
  rw [indexAlone_moved, List.length_map]
  refine Reading.moved_bind fun _ => ?_
  rw [Span.offset_moved, noSiblingIndex_moved]
  have hfilters : Prod.fst ∘ Prod.map id (n + ·) = (Prod.fst : Filter × Nat → Filter) := rfl
  rw [List.map_map, hfilters]
  exact Reading.moved_bind fun _ => rfl

/-! ## Segments -/

theorem cutGroup_moved (segment : Span) :
    cutGroup (segment.moved n) =
      (cutGroup segment).moved n (Prod.map (Span.moved n) (Option.map (Span.moved n))) := by
  unfold cutGroup
  simp only [Span.splitWhile_moved, Span.isEmpty_moved, Span.chars_moved, Span.stop_moved]
  split
  · rfl
  · split <;> rfl

/-- **A segment further on is read as the same step, or is wrong for the same cause as far on.** -/
theorem readSegment_moved (segment : Span) :
    readSegment (segment.moved n) = (readSegment segment).moved n id := by
  unfold readSegment
  rw [cutGroup_moved]
  refine Reading.moved_bind fun (selector, group) => ?_
  dsimp only [Prod.map]
  rw [readSelector_moved]
  refine Reading.moved_bind fun step => ?_
  cases group with
  | none => rfl
  | some group => exact readGroup_moved n step group

theorem mapM_readSegment_moved (spans : List Span) :
    (spans.map (Span.moved n)).mapM readSegment = Reading.moved n id (spans.mapM readSegment) := by
  induction spans with
  | nil => rfl
  | cons segment rest ih =>
    rw [List.map_cons, List.mapM_cons, List.mapM_cons, readSegment_moved, ih]
    refine Reading.moved_bind fun step => ?_
    exact Reading.moved_bind fun _ => rfl

end SceneSelect.Path
