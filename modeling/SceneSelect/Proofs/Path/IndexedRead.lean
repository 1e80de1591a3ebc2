import SceneSelect.Proofs.Path.Boundary
import SceneSelect.Proofs.Path.IndexedCuts

/-!
# `Proofs/Path/IndexedRead.lean` — reading in place

The reader in place and the reader of spans do the same, and only the first could stop. They are compared
function by function, from the cursor up: `Cursor.At` says that a cursor stands in front of a span, and
`Attempt.Follows` that an attempt comes to the outcome of a reading, with the answers side by side. The
cursor never leaves its place between two characters because it only moves on by characters it has looked at.

**So nothing that is checked ever fails** (`parse_safe`): no piece is cut at a position that is none, no
position is counted back beyond the start, and the numbers whose sign is changed have an opposite, being
digits that were read into the same range.
-/

set_option autoImplicit false

namespace SceneSelect.Path

open Text

variable {α β γ δ : Type}

/-- The attempt goes through and comes to the outcome of the reading; `R` compares the answers. -/
def Attempt.Follows (R : α → β → Prop) (x : Attempt α) (r : Reading β) : Prop :=
  match r with
  | .ok b => ∃ a, x = pure a ∧ R a b
  | .error f => x = throw f

namespace Attempt

theorem Follows.bind {R : α → β → Prop} {S : γ → δ → Prop} {x : Attempt α} {r : Reading β}
    {f : α → Attempt γ} {g : β → Reading δ} (h : x.Follows R r)
    (hf : ∀ a b, R a b → (f a).Follows S (g b)) : (x >>= f).Follows S (r >>= g) := by
  cases r with
  | ok b =>
    obtain ⟨a, rfl, hab⟩ := h
    exact hf a b hab
  | error fault =>
    obtain rfl := h
    rfl

theorem follows_eq_iff {x : Attempt α} {r : Reading α} : x.Follows Eq r ↔ x = ofReading r := by
  cases r with
  | ok b =>
    constructor
    · rintro ⟨_, rfl, rfl⟩
      rfl
    · rintro rfl
      exact ⟨b, rfl, rfl⟩
  | error fault => exact Iff.rfl

end Attempt

namespace Indexed

/-! ## The cursor -/

/-- The cursor stands in front of a span: that is what is left of its own span. -/
structure Cursor.At (c : Cursor) (s : Span) : Prop where
  split : ∃ front, c.span.chars = front ++ s.chars ∧ c.index = utf8Len front
  place : c.position = s.offset

namespace Cursor.At

variable {c : Cursor} {s : Span}

theorem start (s : Span) : Cursor.At ⟨s, 0⟩ s := ⟨⟨[], rfl, rfl⟩, rfl⟩

theorem rest (h : c.At s) : c.rest = .ok s.chars := by
  obtain ⟨front, hchars, hindex⟩ := h.split
  rw [Cursor.rest, hchars, hindex, sliceFrom_append]

theorem peek (h : c.At s) : c.peek = .ok s.chars.head? := by
  rw [Cursor.peek, h.rest]
  rfl

theorem skip (h : c.At s) (run : List Char) {behind : List Char} (hs : s.chars = run ++ behind) :
    (c.skip (utf8Len run)).At ⟨behind, s.offset + utf8Len run⟩ := by
  obtain ⟨front, hchars, hindex⟩ := h.split
  refine ⟨⟨front ++ run, ?_, ?_⟩, ?_⟩
  · rw [Cursor.skip, hchars, hs, List.append_assoc]
  · rw [Cursor.skip, hindex, utf8Len_append]
  · rw [← h.place]
    exact (Nat.add_assoc ..).symm

theorem drop_one {symbol : Char} {more : List Char} (h : c.At s) (hs : s.chars = symbol :: more) :
    (c.skip symbol.utf8Size).At (s.drop 1) := by
  have hat := h.skip [symbol] hs
  rw [Span.drop, hs]
  exact hat

theorem next_cons {symbol : Char} {more : List Char} (h : c.At s) (hs : s.chars = symbol :: more) :
    c.next = .ok (some symbol, c.skip symbol.utf8Size) := by
  rw [Cursor.next, h.peek, hs]
  rfl

theorem next_nil (h : c.At s) (hs : s.chars = []) : c.next = .ok (none, c) := by
  rw [Cursor.next, h.peek, hs]
  rfl

theorem next (h : c.At s) : ∃ c', c.next = .ok (s.chars.head?, c') ∧ c'.At (s.drop 1) := by
  cases hs : s.chars with
  | nil =>
    obtain ⟨cs, o⟩ := s
    obtain rfl : cs = [] := hs
    exact ⟨c, h.next_nil rfl, h⟩
  | cons symbol more => exact ⟨_, h.next_cons hs, h.drop_one hs⟩

theorem skipWhile_nil (p : Char → Bool) (h : c.At s) (hs : s.chars = []) :
    Cursor.skipWhile p c = .ok c := by
  have hrest := h.rest
  rw [hs] at hrest
  rw [Cursor.skipWhile]
  split
  · rename_i htrap
    exact absurd (hrest.symm.trans htrap) (by simp)
  · rfl
  · rename_i hcons
    exact absurd (hrest.symm.trans hcons) (by simp)

theorem skipWhile_cons (p : Char → Bool) {symbol : Char} {more : List Char} (h : c.At s)
    (hs : s.chars = symbol :: more) :
    Cursor.skipWhile p c =
      if p symbol then Cursor.skipWhile p (c.skip symbol.utf8Size) else .ok c := by
  have hrest := h.rest
  rw [hs] at hrest
  rw [Cursor.skipWhile]
  split
  · rename_i htrap
    exact absurd (hrest.symm.trans htrap) (by simp)
  · rename_i hnil
    exact absurd (hrest.symm.trans hnil) (by simp)
  · rename_i hcons
    obtain ⟨rfl, -⟩ := List.cons.inj (Except.ok.inj (hrest.symm.trans hcons))
    rfl

theorem skipWhile (p : Char → Bool) (h : c.At s) :
    Cursor.skipWhile p c = .ok (c.skip (utf8Len (s.chars.takeWhile p))) := by
  obtain ⟨cs, o⟩ := s
  induction cs generalizing c o with
  | nil =>
    rw [h.skipWhile_nil p rfl]
    rfl
  | cons symbol more ih =>
    rw [h.skipWhile_cons p rfl, List.takeWhile_cons]
    split
    · rw [ih _ (h.drop_one rfl), Cursor.skip, Cursor.skip, Cursor.skip, utf8Len_cons, Nat.add_assoc]
    · rfl

theorem behind (p : Char → Bool) (h : c.At s) :
    (c.skip (utf8Len (s.chars.takeWhile p))).At (s.splitWhile p).2 :=
  h.skip _ List.takeWhile_append_dropWhile.symm

theorem takeWhile (p : Char → Bool) (h : c.At s) :
    c.takeWhile p = .ok (s.chars.takeWhile p, c.skip (utf8Len (s.chars.takeWhile p))) := by
  obtain ⟨front, hchars, hindex⟩ := h.split
  have hcut : slice c.index (c.skip (utf8Len (s.chars.takeWhile p))).index c.span.chars =
      .ok (s.chars.takeWhile p) := by
    have hsplit : c.span.chars = front ++ s.chars.takeWhile p ++ s.chars.dropWhile p := by
      rw [hchars, List.append_assoc, List.takeWhile_append_dropWhile]
    rw [Cursor.skip, hindex, hsplit, slice_append]
  rw [Cursor.takeWhile, h.skipWhile]
  show (slice _ _ _ >>= fun piece => pure (piece, _)) = _
  rw [hcut]
  rfl

theorem takeRest (h : c.At s) (missing : SyntaxCause) :
    c.takeRest missing = Attempt.ofReading
      (if s.chars.isEmpty then .error ⟨missing, s.offset⟩ else .ok s.chars) := by
  rw [Cursor.takeRest, Attempt.lift_bind h.rest, h.place]
  split <;> rfl

end Cursor.At

/-- The same answer, and the cursor in front of what is left. -/
def Beside (a : α × Cursor) (b : α × Span) : Prop := a.1 = b.1 ∧ a.2.At b.2

theorem beside_pure {r : α} {c : Cursor} {s : Span} (h : c.At s) :
    (pure (r, c) : Attempt (α × Cursor)).Follows Beside (.ok (r, s)) :=
  ⟨_, rfl, rfl, h⟩

/-! ## Selectors -/

variable {c : Cursor} {s : Span}

theorem readMode_follows (h : c.At s) :
    ∃ c', readMode c = .ok ((Path.readMode s).1, c') ∧ c'.At (Path.readMode s).2 := by
  unfold Path.readMode
  split
  · rename_i more hs
    refine ⟨_, ?_, h.drop_one hs⟩
    rw [readMode, h.peek, hs]
    rfl
  · rename_i more hs
    refine ⟨_, ?_, h.drop_one hs⟩
    rw [readMode, h.peek, hs]
    rfl
  · rename_i hcaret htilde
    refine ⟨c, ?_, h⟩
    rw [readMode, h.peek]
    dsimp only [bind, Except.bind]
    split
    · rename_i hs
      obtain ⟨more, hs⟩ := List.head?_eq_some_iff.mp hs
      exact absurd hs (hcaret more)
    · rename_i hs
      obtain ⟨more, hs⟩ := List.head?_eq_some_iff.mp hs
      exact absurd hs (htilde more)
    · rfl

theorem readTag_follows (h : c.At s) : (readTag c).Follows Beside (Path.readTag s) := by
  rw [readTag, Attempt.lift_bind h.peek, Path.readTag]
  by_cases hstar : s.chars.head? = some '*'
  · obtain ⟨more, hs⟩ := List.head?_eq_some_iff.mp hstar
    have hbehind : (c.skip 1).At (s.drop 1) := h.drop_one hs
    rw [if_pos hstar, if_pos hstar]
    dsimp only
    rw [Attempt.lift_bind hbehind.peek, hbehind.place]
    split
    · rfl
    · exact beside_pure hbehind
  · rw [if_neg hstar, if_neg hstar, Attempt.lift_bind (h.takeWhile isTagChar)]
    exact beside_pure (h.behind isTagChar)

theorem directed_ofNat {delimiter : Char} {start n : Nat} (hne : n ≠ 0) (hlt : n < Numeral.signed32) :
    directed delimiter start (Int32.ofNat n) = pure (signedOffset delimiter n) := by
  have hword : Int32.ofNat n ≠ 0 := by
    intro hzero
    have hint := congrArg Int32.toInt hzero
    rw [Int32.toInt_ofNat_of_lt hlt, Int32.toInt_zero] at hint
    omega
  rw [directed, if_neg hword, signedOffset]
  split
  · rfl
  · rw [Checked.neg32_ofNat hlt]
    rfl

/-- A distance with digits: the sign that closes it, then its range. -/
theorem closeSibling_follows (delimiter : Char) (start : Nat) (digits : List Char) (h : c.At s) :
    (closeSibling delimiter start digits c >>= fun r =>
      directed delimiter start r.1 >>= fun offset => pure (offset, r.2)).Follows Beside
      (if s.chars.head? ≠ some delimiter then .error ⟨.siblingUnclosed delimiter, (s.drop 1).offset⟩
        else if Numeral.signed32 ≤ Numeral.ofDigits digits then .error ⟨.siblingOutOfRange, start⟩
        else if Numeral.ofDigits digits = 0 then .error ⟨.siblingZero, start⟩
        else .ok (signedOffset delimiter (Numeral.ofDigits digits), s.drop 1)) := by
  obtain ⟨c', hnext, hc'⟩ := h.next
  rw [closeSibling, Attempt.lift_bind hnext]
  dsimp only
  by_cases hclosed : s.chars.head? = some delimiter
  · rw [if_neg (not_not.mpr hclosed), if_neg (not_not.mpr hclosed)]
    by_cases hrange : Numeral.signed32 ≤ Numeral.ofDigits digits
    · rw [if_pos hrange, if_pos hrange]
      rfl
    · rw [if_neg hrange, if_neg hrange, pure_bind]
      by_cases hzero : Numeral.ofDigits digits = 0
      · rw [if_pos hzero, hzero]
        rfl
      · rw [if_neg hzero, directed_ofNat hzero (Nat.lt_of_not_le hrange)]
        exact beside_pure hc'
  · rw [if_pos hclosed, if_pos hclosed, hc'.place]
    rfl

theorem readSibling_follows {delimiter : Char} {more : List Char} (h : c.At s)
    (hs : s.chars = delimiter :: more) :
    (readSibling c).Follows Beside (Path.readSibling delimiter s.offset (s.drop 1)) := by
  have hbehind := h.drop_one hs
  have hrun := hbehind.behind Char.isDigit
  rw [readSibling, Attempt.lift_bind (h.next_cons hs)]
  dsimp only
  rw [Attempt.lift_bind (hbehind.takeWhile Char.isDigit), h.place, Path.readSibling]
  rcases hsplit : (s.drop 1).splitWhile Char.isDigit with ⟨digits, behind⟩
  have hdigits : (s.drop 1).chars.takeWhile Char.isDigit = digits.chars :=
    congrArg (fun r => r.1.chars) hsplit
  rw [hsplit, hdigits] at hrun
  rw [hdigits]
  dsimp only
  by_cases hempty : digits.chars.isEmpty = true
  · have hone : directed delimiter s.offset 1 = pure (signedOffset delimiter 1) :=
      directed_ofNat (n := 1) (by decide) (by decide)
    have hnone : utf8Len digits.chars = 0 := by
      rw [List.isEmpty_iff.mp hempty, utf8Len_nil]
    have hreader : digits.isEmpty = true := hempty
    rw [if_pos hempty, if_pos hreader, pure_bind, hone, hnone]
    exact beside_pure hbehind
  · have hreader : ¬digits.isEmpty = true := hempty
    rw [if_neg hempty, if_neg hreader]
    exact closeSibling_follows delimiter s.offset digits.chars hrun

theorem readTarget_follows (mode : Mode) (h : c.At s) :
    (readTarget mode c).Follows Beside (Path.readTarget mode s) := by
  rw [readTarget, Attempt.lift_bind h.peek, h.place]
  unfold Path.readTarget
  cases hs : s.chars with
  | nil =>
    obtain ⟨cs, o⟩ := s
    obtain rfl : cs = [] := hs
    obtain ⟨⟨_, c'⟩, htag, rfl, hc'⟩ := readTag_follows h
    rw [htag]
    exact beside_pure hc'
  | cons symbol more =>
    have hhead : (symbol :: more).head? = some '>' ∨ (symbol :: more).head? = some '<' ↔
        symbol = '>' ∨ symbol = '<' := by
      rw [List.head?_cons, Option.some_inj, Option.some_inj]
    dsimp only
    by_cases hsign : symbol = '>' ∨ symbol = '<'
    · rw [if_pos hsign, if_pos (hhead.mpr hsign)]
      by_cases hmode : mode = .exact
      · rw [if_pos hmode, if_pos hmode]
        refine (readSibling_follows h hs).bind ?_
        rintro ⟨sibling, c'⟩ ⟨_, s'⟩ ⟨rfl, hc'⟩
        exact beside_pure hc'
      · rw [if_neg hmode, if_neg hmode]
        rfl
    · rw [if_neg hsign, if_neg (mt hhead.mp hsign)]
      refine (readTag_follows h).bind ?_
      rintro ⟨tag, c'⟩ ⟨_, s'⟩ ⟨rfl, hc'⟩
      exact beside_pure hc'

theorem readName_eq (step : Step) (h : c.At s) :
    readName step c = Attempt.ofReading (Path.readName step s) := by
  unfold Path.readName
  cases hs : s.chars with
  | nil =>
    rw [readName, Attempt.lift_bind (h.next_nil hs)]
    rfl
  | cons symbol name =>
    have hbehind := h.drop_one hs
    have hplace : Checked.sub (c.skip symbol.utf8Size).position symbol.utf8Size = .ok s.offset := by
      have hlen : utf8Len (s.chars.take 1) = symbol.utf8Size := by
        rw [hs]
        rfl
      rw [hbehind.place, Span.drop, hlen, Checked.sub_of_le (Nat.le_add_left ..), Nat.add_sub_cancel]
    have hname : (s.drop 1).chars = name := by
      rw [Span.drop, hs]
      rfl
    rw [readName, Attempt.lift_bind (h.next_cons hs)]
    dsimp only
    rw [hbehind.takeRest, hbehind.takeRest, hname, Attempt.lift_bind hplace]
    by_cases hdot : symbol = '.'
    · rw [if_pos hdot, if_pos hdot]
      split <;> rfl
    · rw [if_neg hdot, if_neg hdot]
      by_cases hhash : symbol = '#'
      · rw [if_pos hhash, if_pos hhash]
        split <;> rfl
      · rw [if_neg hhash, if_neg hhash]
        rfl

theorem readSelector_eq (s : Span) : readSelector s = Attempt.ofReading (Path.readSelector s) := by
  obtain ⟨c, hmode, hc⟩ := readMode_follows (Cursor.At.start s)
  rw [readSelector, Attempt.lift_bind hmode, Path.readSelector]
  refine Attempt.follows_eq_iff.mp ((readTarget_follows _ hc).bind ?_)
  rintro ⟨step, c⟩ ⟨_, s⟩ ⟨rfl, hc⟩
  exact Attempt.follows_eq_iff.mpr (readName_eq step hc)

/-! ## Filters -/

theorem readLastOffset?_eq (cs : List Char) : readLastOffset? cs = .ok (Path.readLastOffset? cs) := by
  cases cs with
  | nil => rfl
  | cons c digits =>
    rw [readLastOffset?, Path.readLastOffset?]
    split
    · rename_i hdigits
      rw [Checked.neg64_ofNat hdigits.2.2]
      rfl
    · rfl

theorem readPosition_eq (pos : Nat) (cs : List Char) :
    readPosition pos cs = Attempt.ofReading (Path.readPosition pos cs) := by
  unfold readPosition
  cases hlast : behindStart? "last()".toList cs with
  | none => rfl
  | some rest =>
    dsimp only
    rw [Attempt.lift_bind (readLastOffset?_eq rest), Path.readPosition, hlast]
    dsimp only
    cases Path.readLastOffset? rest <;> rfl

theorem findTest?_eq {cs front rest : List Char} (hcs : cs = front ++ rest) :
    findTest? cs (utf8Len front) rest =
      .ok ((splitTest? rest).map fun (name, test) => (utf8Len front + utf8Len name, test)) := by
  induction rest generalizing front with
  | nil => rfl
  | cons c rest ih =>
    have hcut : sliceFrom (utf8Len front) cs = .ok (c :: rest) := by
      rw [hcs, sliceFrom_append]
    rw [findTest?, hcut, splitTest?]
    dsimp only [bind, Except.bind]
    cases readTest? (c :: rest) with
    | some test => rfl
    | none =>
      dsimp only
      rw [← utf8Len_concat, ih (by rw [hcs, List.append_assoc, List.singleton_append]), Option.map_map]
      congr 2
      funext found
      simp [Nat.add_assoc]

theorem readNamed_eq (pos : Nat) (cs : List Char) :
    readNamed pos cs = Attempt.ofReading (Path.readNamed pos cs) := by
  have hfind := findTest?_eq (show cs = [] ++ cs from rfl)
  rw [utf8Len_nil] at hfind
  rw [readNamed, Attempt.lift_bind hfind, Path.readNamed]
  rcases hsplit : splitTest? cs with _ | ⟨name, test⟩
  · rfl
  · obtain ⟨hcs, -⟩ := splitTest?_eq_some_iff.mp hsplit
    dsimp only [Option.map_some]
    rw [Nat.zero_add]
    cases name with
    | nil => rfl
    | cons c name =>
      have hlen : utf8Len (c :: name) ≠ 0 := by
        have := c.utf8Size_pos
        rw [utf8Len_cons]
        omega
      have hcut : slice 0 (utf8Len (c :: name)) cs = .ok (c :: name) := by
        rw [hcs, slice_front]
      rw [if_neg hlen, Attempt.lift_bind hcut]
      rfl

theorem readBody_eq (body : Span) : readBody body = Attempt.ofReading (Path.readBody body) := by
  unfold readBody
  split
  · rename_i rest hs
    rw [readPosition_eq, Path.readBody, hs]
    refine Attempt.ofReading_bind fun found _ => ?_
    cases found <;> rfl
  · rename_i rest hs
    rw [readNamed_eq, Path.readBody, hs]
    exact Attempt.ofReading_bind fun _ _ => rfl
  · rename_i rest hs
    rw [readNamed_eq, Path.readBody, hs]
    exact Attempt.ofReading_bind fun _ _ => rfl
  · rfl

theorem readFilter_eq (body : Span) : readFilter body = Attempt.ofReading (Path.readFilter body) := by
  rw [readFilter, readPosition_eq, Path.readFilter]
  refine Attempt.ofReading_bind fun found _ => ?_
  cases found with
  | none => exact readBody_eq body
  | some p => rfl

/-! ## Segments -/

theorem readBodies_eq (found : Option Position) (spans : List Span) :
    readBodies found spans = Attempt.ofReading (Path.readBodies found spans) := by
  induction spans generalizing found with
  | nil => rfl
  | cons body rest ih =>
    rw [readBodies, readFilter_eq, Path.readBodies]
    refine Attempt.ofReading_bind fun f _ => ?_
    cases f with
    | childIndex p =>
      dsimp only
      split
      · rfl
      · exact ih _
    | _ =>
      dsimp only
      rw [ih]
      exact Attempt.ofReading_bind fun _ _ => rfl

theorem readGroup_eq (step : Step) (inside : List Char) (o : Nat) :
    readGroup step ⟨'[' :: (inside ++ [']']), o⟩ =
      Attempt.ofReading (Path.readGroup step ⟨'[' :: (inside ++ [']']), o⟩) := by
  rw [readGroup, filterBodies_eq, Path.readGroup]
  refine Attempt.ofReading_bind fun bodies _ => ?_
  rw [readBodies_eq]
  refine Attempt.ofReading_bind fun read _ => ?_
  obtain ⟨filters, childIndex⟩ := read
  refine Attempt.ofReading_bind fun _ _ => ?_
  exact Attempt.ofReading_bind fun _ _ => rfl

theorem readSegment_eq (segment : Span) :
    readSegment segment = Attempt.ofReading (Path.readSegment segment) := by
  rw [readSegment, cutGroup_eq, Path.readSegment]
  refine Attempt.ofReading_bind fun parts hcut => ?_
  obtain ⟨selector, group⟩ := parts
  dsimp only
  rw [readSelector_eq]
  refine Attempt.ofReading_bind fun step _ => ?_
  -- a group has its brackets, so there is something between the first byte and the last
  obtain ⟨-, ⟨-, rfl⟩ | ⟨inside, o, -, rfl⟩⟩ := cutGroup_sound hcut
  · rfl
  · exact readGroup_eq step inside o

theorem mapM_readSegment_eq (spans : List Span) :
    spans.mapM readSegment = Attempt.ofReading (spans.mapM Path.readSegment) := by
  induction spans with
  | nil => rfl
  | cons segment rest ih =>
    rw [List.mapM_cons, List.mapM_cons, readSegment_eq, ih]
    refine Attempt.ofReading_bind fun step _ => ?_
    exact Attempt.ofReading_bind fun _ _ => rfl

/-- **The reader in place never stops, and reads what the reader reads.** -/
theorem parse_eq (text : String) : parse text = .ok (Path.parse text) := by
  have hpath : readPath text.toList = Attempt.ofReading (Path.readPath text.toList) := by
    rw [readPath, segments_eq, Path.readPath]
    exact Attempt.ofReading_bind fun spans _ => mapM_readSegment_eq spans
  rw [parse, hpath]
  rfl

end Indexed

/-- **Reading is safe on every text: in place, with each cut, difference and change of sign checked, it never
stops, and it ends with a path or with a fault at a boundary between two characters of the text.** -/
theorem parse_safe (text : String) :
    Indexed.parse text = .ok (parse text) ∧
      ((∃ path, parse text = .ok path) ∨
        ∃ fault, parse text = .error fault ∧ fault.position ≤ text.utf8ByteSize ∧
          String.Pos.Raw.IsValid text ⟨fault.position⟩) := by
  refine ⟨Indexed.parse_eq text, ?_⟩
  have hstays := readPath_staysIn text.toList
  cases hread : parse text with
  | ok path => exact Or.inl ⟨path, rfl⟩
  | error fault =>
    rw [show readPath text.toList = .error fault from hread] at hstays
    obtain ⟨before, behind, hsplit, hposition⟩ := hstays
    have hcut : cutAt fault.position text.toList = .ok (before, behind) := by
      rw [hsplit, hposition, cutAt_append]
    have hvalid := isValid_iff_cutAt.mpr ⟨_, hcut⟩
    rw [String.ofList_toList] at hvalid
    exact Or.inr ⟨fault, rfl, hvalid.le_rawEndPos, hvalid⟩

end SceneSelect.Path
