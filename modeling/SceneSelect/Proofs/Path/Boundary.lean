import SceneSelect.Proofs.Path.Segment

/-!
# `Proofs/Path/Boundary.lean` — faults stand between two characters

A fault is reported at a position in bytes, and so it could stand in the middle of a character. It does not:
every position that a reader reports is the start or the end of a span, and every span is cut out of the text
(`Span.Within`), by whole characters. `Reading.StaysIn` says both, of a fault that it lies at a boundary of
the text and of an answer that its spans lie within, and `StaysIn.bind` carries it over a chain of readers.

Two kinds of spans are not cut but laid out, with a gap between them: segments one byte apart and filter bodies
five. What the two have in common is that they fill a span from end to end but for the gaps (`Span.Tiles`).
-/

set_option autoImplicit false

namespace SceneSelect.Text

/-! ## Boundaries and pieces of a text -/

/-- A position between two characters of a text, or at one of its ends. -/
def IsBoundary (whole : List Char) (position : Nat) : Prop :=
  ∃ before behind, whole = before ++ behind ∧ position = utf8Len before

namespace Span.Within

variable {whole : List Char} {s : Span}

theorem ofText (cs : List Char) : (Span.ofText cs).Within cs :=
  ⟨[], [], (List.append_nil cs).symm, rfl⟩

theorem part (h : s.Within whole) (before : List Char) {piece behind : List Char}
    (hs : s.chars = before ++ piece ++ behind) :
    Span.Within ⟨piece, s.offset + utf8Len before⟩ whole := by
  obtain ⟨front, back, rfl, hoffset⟩ := h
  refine ⟨front ++ before, behind ++ back, ?_, ?_⟩
  · simp [hs]
  · rw [hoffset, utf8Len_append]

theorem start (h : s.Within whole) : IsBoundary whole s.offset := by
  obtain ⟨front, back, rfl, hoffset⟩ := h
  exact ⟨front, s.chars ++ back, List.append_assoc .., hoffset⟩

theorem stop (h : s.Within whole) : IsBoundary whole s.stop := by
  obtain ⟨front, back, rfl, hoffset⟩ := h
  refine ⟨front ++ s.chars, back, rfl, ?_⟩
  rw [Span.stop, hoffset, utf8Len_append]

theorem behind (h : s.Within whole) (before : List Char) {rest : List Char}
    (hs : s.chars = before ++ rest) : Span.Within ⟨rest, s.offset + utf8Len before⟩ whole := by
  rw [← List.append_nil (before ++ rest)] at hs
  exact h.part before hs

theorem drop (n : Nat) (h : s.Within whole) : (s.drop n).Within whole :=
  h.behind (s.chars.take n) (List.take_append_drop n s.chars).symm

theorem front {piece rest : List Char} (h : s.Within whole) (hs : s.chars = piece ++ rest) :
    Span.Within ⟨piece, s.offset⟩ whole :=
  h.part [] hs

theorem dropLast (h : s.Within whole) : s.dropLast.Within whole := by
  rcases List.eq_nil_or_concat' s.chars with hnil | ⟨init, last, hs⟩
  · rw [Span.dropLast, hnil]
    exact h.front (show s.chars = [] ++ [] from hnil)
  · rw [Span.dropLast, hs, List.dropLast_concat]
    exact h.front hs

theorem splitWhile (p : Char → Bool) (h : s.Within whole) :
    (s.splitWhile p).1.Within whole ∧ (s.splitWhile p).2.Within whole :=
  have hsplit := (List.takeWhile_append_dropWhile (p := p) (l := s.chars)).symm
  ⟨h.front hsplit, h.behind _ hsplit⟩

end Span.Within

/-! ## Tilings -/

namespace Span

/-- A row of spans that fills another span, with a gap between each two of them. -/
inductive Tiles (IsGap : List Char → Prop) : List Span → Span → Prop where
  | one (s : Span) : Tiles IsGap [s] s
  | cons {s : Span} {gap text : List Char} {spans : List Span} (hgap : IsGap gap)
      (hrest : Tiles IsGap spans ⟨text, s.stop + utf8Len gap⟩) :
      Tiles IsGap (s :: spans) ⟨s.chars ++ gap ++ text, s.offset⟩

theorem Tiles.within {IsGap : List Char → Prop} {spans : List Span} {s : Span} {whole : List Char}
    (h : Tiles IsGap spans s) (hw : s.Within whole) : ∀ t ∈ spans, t.Within whole := by
  induction h with
  | one s => exact List.forall_mem_singleton.mpr hw
  | @cons s gap text spans _ _ ih =>
    have hnext : Span.Within ⟨text, s.stop + utf8Len gap⟩ whole := by
      have hbehind := hw.behind (s.chars ++ gap) rfl
      rwa [utf8Len_append, ← Nat.add_assoc] at hbehind
    exact List.forall_mem_cons.mpr ⟨hw.front (List.append_assoc ..), ih hnext⟩

theorem tiles_intercalate (sep : List Char) (o : Nat) {pieces : List (List Char)}
    (h : pieces ≠ []) :
    Tiles (· = sep) (layOut (utf8Len sep) o pieces) ⟨sep.intercalate pieces, o⟩ := by
  induction pieces generalizing o with
  | nil => exact absurd rfl h
  | cons piece rest ih =>
    by_cases hrest : rest = []
    · rw [hrest, List.intercalate_singleton]
      exact .one ⟨piece, o⟩
    · rw [List.intercalate_cons_of_ne_nil hrest]
      exact .cons (s := ⟨piece, o⟩) rfl (ih _ hrest)

end Span

end SceneSelect.Text

namespace SceneSelect.Path

open Text

variable {α β : Type} {whole : List Char}

/-- A fault lies at a position of the text, an answer is as `P` says. -/
def Reading.StaysIn (whole : List Char) (P : α → Prop) : Reading α → Prop
  | .ok a => P a
  | .error f => IsBoundary whole f.position

theorem Reading.StaysIn.bind {P : α → Prop} {Q : β → Prop} {x : Reading α} {f : α → Reading β}
    (hx : x.StaysIn whole P) (hf : ∀ a, P a → (f a).StaysIn whole Q) : (x >>= f).StaysIn whole Q := by
  cases x with
  | ok a => exact hf a hx
  | error fault => exact hx

theorem Reading.StaysIn.map {x : Reading α} (h : x.StaysIn whole fun _ => True) (f : α → β) :
    Reading.StaysIn whole (fun _ => True) (x.map f) := by
  cases x with
  | ok a => exact trivial
  | error fault => exact h

theorem Reading.StaysIn.of_ok {P : α → Prop} {x : Reading α} (h : x.StaysIn whole fun _ => True)
    (hok : ∀ a, x = .ok a → P a) : x.StaysIn whole P := by
  cases x with
  | ok a => exact hok a rfl
  | error fault => exact h

/-! ## Cuts -/

theorem checkBrackets_staysIn (front : List Char) {rest : List Char} (hwhole : whole = front ++ rest)
    (d : Nat) {opened : Nat} (hopened : IsBoundary whole opened) :
    (checkBrackets d opened (utf8Len front) rest).StaysIn whole fun _ => True := by
  induction rest generalizing front d opened with
  | nil =>
    rw [checkBrackets]
    split
    · exact trivial
    · exact hopened
  | cons c rest ih =>
    have hat : IsBoundary whole (utf8Len front) := ⟨front, c :: rest, hwhole, rfl⟩
    rw [checkBrackets]
    split
    · exact hat
    · rw [← utf8Len_concat]
      refine ih _ (by rw [hwhole, List.append_assoc, List.singleton_append]) _ ?_
      split
      · exact hat
      · exact hopened

theorem noneEmpty_staysIn (cause : SyntaxCause) {spans : List Span}
    (h : ∀ s ∈ spans, s.Within whole) :
    (noneEmpty cause spans).StaysIn whole fun result => ∀ s ∈ result, s.Within whole := by
  unfold noneEmpty
  split
  · rename_i s hfound
    exact (h s (List.mem_of_find?_eq_some hfound)).start
  · exact h

theorem segments_staysIn (path : List Char) :
    (segments path).StaysIn path fun spans => ∀ s ∈ spans, s.Within path := by
  have htiled := Span.tiles_intercalate ['/'] 0 (cutSlashes_ne_nil 0 path)
  rw [intercalate_cutSlashes] at htiled
  have hzero : IsBoundary path 0 := ⟨[], path, rfl, rfl⟩
  refine (checkBrackets_staysIn [] rfl 0 hzero).bind fun _ _ => ?_
  exact noneEmpty_staysIn _ (htiled.within (.ofText path))

theorem cutGroup_staysIn {segment : Span} (h : segment.Within whole) :
    (cutGroup segment).StaysIn whole fun r => r.1.Within whole ∧ ∀ g ∈ r.2, g.Within whole := by
  obtain ⟨hselector, hgroup⟩ := h.splitWhile (· != '[')
  unfold cutGroup
  dsimp only
  split
  · exact ⟨hselector, by simp⟩
  · split
    · exact ⟨hselector, by simpa using hgroup⟩
    · exact h.stop

/-- What stands between two filter bodies: `]and[` in some letter case, five bytes. -/
structure IsJoin (gap : List Char) : Prop where
  spelled : ∃ word, IsAnd word ∧ gap = ']' :: (word ++ ['['])
  bytes : utf8Len gap = 5

theorem Joined.tiles {bodies : List (List Char)} {text : List Char} (h : Joined bodies text)
    (o : Nat) : Span.Tiles IsJoin (Span.layOut joinLen o bodies) ⟨text, o⟩ := by
  induction h generalizing o with
  | one => exact .one _
  | @cons body word inside bodies _ hword _ ih =>
    have hsplit : body ++ ']' :: (word ++ '[' :: inside) =
        body ++ ']' :: (word ++ ['[']) ++ inside := by simp
    have hbytes := utf8Len_and hword
    rw [hsplit, Span.layOut, ← hbytes]
    refine .cons (s := ⟨body, o⟩) ⟨⟨word, hword, rfl⟩, hbytes⟩ ?_
    rw [hbytes]
    exact ih _

theorem cutJoins_staysIn {pos : Nat} {text : List Char} (h : Span.Within ⟨text, pos⟩ whole) :
    (cutJoins pos text).StaysIn whole fun _ => True := by
  fun_induction cutJoins pos text with
  | case1 pos text word behind hjoin _ hand ih =>
    obtain ⟨rfl, -⟩ := joinAt?_eq_some_iff.mp hjoin
    have hsplit : ']' :: (word ++ '[' :: behind) = ']' :: (word ++ ['[']) ++ behind := by simp
    have hbehind := h.behind _ hsplit
    rw [utf8Len_and (isWord_and_iff.mp hand)] at hbehind
    exact (ih hbehind).map _
  | case2 => exact h.start
  | case3 => exact h.start
  | case4 => exact trivial
  | case5 pos c rest hjoin ih =>
    exact (ih (h.behind [c] rfl)).map _

theorem filterBodies_staysIn {group : Span} (h : group.Within whole) :
    (filterBodies group).StaysIn whole fun bodies => ∀ s ∈ bodies, s.Within whole := by
  have hinside : ((group.drop 1).dropLast).Within whole := (h.drop 1).dropLast
  have hcut := (cutJoins_staysIn hinside).of_ok fun bodies hok => cutJoins_eq_ok_iff.mp hok
  refine hcut.bind fun bodies hjoined => ?_
  exact noneEmpty_staysIn _ ((hjoined.tiles _).within hinside)

/-! ## Selectors -/

variable {s : Span}

theorem readMode_within (h : s.Within whole) : (readMode s).2.Within whole := by
  unfold readMode
  split
  · exact h.drop 1
  · exact h.drop 1
  · exact h

theorem readSibling_staysIn (delimiter : Char) {start : Nat} (hstart : IsBoundary whole start)
    (h : s.Within whole) :
    (readSibling delimiter start s).StaysIn whole fun r => r.2.Within whole := by
  obtain ⟨-, hbehind⟩ := h.splitWhile Char.isDigit
  unfold readSibling
  dsimp only
  split
  · exact h
  · split
    · exact (hbehind.drop 1).start
    · split
      · exact hstart
      · split
        · exact hstart
        · exact hbehind.drop 1

theorem readTag_staysIn (h : s.Within whole) :
    (readTag s).StaysIn whole fun r => r.2.Within whole := by
  unfold readTag
  split
  · dsimp only
    split
    · exact (h.drop 1).start
    · exact h.drop 1
  · exact (h.splitWhile isTagChar).2

theorem readTarget_staysIn (mode : Mode) (h : s.Within whole) :
    (readTarget mode s).StaysIn whole fun r => r.2.Within whole := by
  unfold readTarget
  split
  · split
    · split
      · exact (readSibling_staysIn _ h.start (h.drop 1)).bind fun _ hrest => hrest
      · exact h.start
    · exact (readTag_staysIn h).bind fun _ hrest => hrest
  · exact h

theorem readName_staysIn (step : Step) (h : s.Within whole) :
    (readName step s).StaysIn whole fun _ => True := by
  unfold readName
  split
  · exact trivial
  · split
    · split
      · exact (h.drop 1).start
      · exact trivial
    · split
      · split
        · exact (h.drop 1).start
        · exact trivial
      · exact h.start

theorem readSelector_staysIn (h : s.Within whole) :
    (readSelector s).StaysIn whole fun _ => True := by
  unfold readSelector
  exact (readTarget_staysIn _ (readMode_within h)).bind fun _ hrest => readName_staysIn _ hrest

/-! ## Filters -/

theorem readPosition_staysIn {pos : Nat} {cs : List Char} (h : Span.Within ⟨cs, pos⟩ whole) :
    (readPosition pos cs).StaysIn whole fun _ => True := by
  unfold readPosition
  split
  · rename_i rest hlast
    split
    · exact trivial
    · exact (h.behind _ (behindStart?_eq_some_iff.mp hlast)).start
  · split
    · split
      · exact trivial
      · exact h.start
    · exact trivial

theorem readNamed_staysIn {pos : Nat} {cs : List Char} (h : Span.Within ⟨cs, pos⟩ whole) :
    (readNamed pos cs).StaysIn whole fun _ => True := by
  unfold readNamed
  split
  · exact h.start
  · exact h.start
  · exact trivial

theorem readBody_staysIn {body : Span} (h : body.Within whole) :
    (readBody body).StaysIn whole fun _ => True := by
  unfold readBody
  split
  · rename_i rest hs
    have hrest : Span.Within ⟨rest, body.offset + 1⟩ whole := h.behind [':'] hs
    refine (readPosition_staysIn hrest).bind fun found _ => ?_
    cases found with
    | none => exact h.start
    | some p => exact trivial
  · rename_i rest hs
    have hrest : Span.Within ⟨rest, body.offset + 1⟩ whole := h.behind ['@'] hs
    exact (readNamed_staysIn hrest).bind fun _ _ => trivial
  · rename_i rest hs
    have hrest : Span.Within ⟨rest, body.offset + 1⟩ whole := h.behind ['$'] hs
    exact (readNamed_staysIn hrest).bind fun _ _ => trivial
  · split
    · exact trivial
    · exact h.start

theorem readFilter_staysIn {body : Span} (h : body.Within whole) :
    (readFilter body).StaysIn whole fun _ => True := by
  unfold readFilter
  refine (readPosition_staysIn h).bind fun found _ => ?_
  cases found with
  | none => exact readBody_staysIn h
  | some p => exact trivial

/-! ## Segments -/

theorem readBodies_staysIn (found : Option Position) {spans : List Span}
    (h : ∀ s ∈ spans, s.Within whole) :
    (readBodies found spans).StaysIn whole fun r => ∀ f ∈ r.1, IsBoundary whole f.2 := by
  induction spans generalizing found with
  | nil => exact fun f hf => absurd hf (by simp)
  | cons body rest ih =>
    obtain ⟨hbody, hrest⟩ := List.forall_mem_cons.mp h
    rw [readBodies_cons]
    refine (readFilter_staysIn hbody).bind fun f _ => ?_
    split
    · split
      · exact hbody.start
      · exact ih _ hrest
    · refine (ih _ hrest).bind fun r hr => ?_
      exact List.forall_mem_cons.mpr ⟨hbody.start, hr⟩

theorem indexAlone_staysIn (count : Nat) {filters : List (Filter × Nat)}
    (h : ∀ f ∈ filters, IsBoundary whole f.2) :
    (indexAlone count filters).StaysIn whole fun _ => True := by
  unfold indexAlone
  split
  · rename_i f position hlast
    split
    · exact h (f, position) (List.mem_of_mem_filter (List.mem_of_getLast? hlast))
    · exact trivial
  · exact trivial

theorem readGroup_staysIn (step : Step) {group : Span} (h : group.Within whole) :
    (readGroup step group).StaysIn whole fun _ => True := by
  unfold readGroup
  refine (filterBodies_staysIn h).bind fun bodies hbodies => ?_
  refine (readBodies_staysIn none hbodies).bind ?_
  rintro ⟨filters, childIndex⟩ hfilters
  refine (indexAlone_staysIn _ hfilters).bind fun _ _ => ?_
  have hsibling : (noSiblingIndex step childIndex group.offset).StaysIn whole fun _ => True := by
    unfold noSiblingIndex
    split
    · exact h.start
    · exact trivial
  exact hsibling.bind fun _ _ => trivial

theorem readSegment_staysIn {segment : Span} (h : segment.Within whole) :
    (readSegment segment).StaysIn whole fun _ => True := by
  unfold readSegment
  refine (cutGroup_staysIn h).bind ?_
  rintro ⟨selector, group⟩ ⟨hselector, hgroup⟩
  refine (readSelector_staysIn hselector).bind fun step _ => ?_
  cases group with
  | none => exact trivial
  | some group => exact readGroup_staysIn step (hgroup group rfl)

theorem mapM_readSegment_staysIn {spans : List Span} (h : ∀ s ∈ spans, s.Within whole) :
    (spans.mapM readSegment).StaysIn whole fun _ => True := by
  induction spans with
  | nil => exact trivial
  | cons segment rest ih =>
    obtain ⟨hsegment, hrest⟩ := List.forall_mem_cons.mp h
    rw [List.mapM_cons]
    refine (readSegment_staysIn hsegment).bind fun step _ => ?_
    exact (ih hrest).bind fun _ _ => trivial

/-- **Whatever is wrong with a text, it is reported at a position of it.** -/
theorem readPath_staysIn (path : List Char) : (readPath path).StaysIn path fun _ => True :=
  (segments_staysIn path).bind fun _ hspans => mapM_readSegment_staysIn hspans

end SceneSelect.Path
