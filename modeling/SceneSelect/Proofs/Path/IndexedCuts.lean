import SceneSelect.Proofs.Path.Indexed
import SceneSelect.Proofs.Path.Joins
import SceneSelect.Proofs.Path.Segment

/-!
# `Proofs/Path/IndexedCuts.lean` — the cuts in place

The cut into segments and that into filter bodies go over a text with a cursor and a start behind them, and
what a loop has seen is the piece between the two. So the text is always what lies before the piece, the
piece, and the rest, and both positions are lengths: this is the invariant of `cutSegments_eq` and
`cutBodies_eq`, from which **every slice is one that `slice_append` answers**, and the loop comes to the
pieces that the reader cuts off the rest, the first of them behind the piece.

The loop over bytes has one more thing to it. It stands in the middle of characters, where no piece could
end; but it stops only at a `]`, and no other character has that byte in it (`cutBodies_run`).
-/

set_option autoImplicit false

namespace SceneSelect.Path

open Text

/-! ## The head of a row of pieces -/

theorem modifyHead_nil_append (pieces : List (List Char)) :
    pieces.modifyHead ([] ++ ·) = pieces := by
  cases pieces <;> rfl

theorem modifyHead_append_singleton (piece : List Char) (c : Char) (pieces : List (List Char)) :
    pieces.modifyHead (piece ++ [c] ++ ·) = (pieces.modifyHead (c :: ·)).modifyHead (piece ++ ·) := by
  cases pieces with
  | nil => rfl
  | cons head rest => simp

namespace Indexed

/-! ## Segments -/

/-- At a character that is no place to stop at, the scan only takes note of the brackets. -/
theorem cutSegments_step {c : Char} {depth : Nat} (hclose : ¬(c = ']' ∧ depth = 0))
    (hslash : ¬(c = '/' ∧ depth = 0)) (path : List Char) (start opened : Nat) (found : List Span)
    (position : Nat) (rest : List Char) :
    cutSegments path depth start opened found position (c :: rest) =
      cutSegments path (depthAfter c depth) start (if c = '[' ∧ depth = 0 then position else opened)
        found (position + c.utf8Size) rest := by
  rw [cutSegments, depthAfter]
  by_cases hopen : c = '['
  · simp only [hopen, if_true, true_and]
  · by_cases hend : c = ']'
    · have hdepth : depth ≠ 0 := fun h => hclose ⟨hend, h⟩
      simp only [hend, hdepth, if_false, if_true]
      rw [Attempt.lift_bind (Checked.sub_of_le (Nat.pos_of_ne_zero hdepth))]
      rfl
    · simp only [hopen, hend, hslash, if_false, false_and]

theorem cutSegments_slash {path piece : List Char} {start position : Nat}
    (hcut : slice start position path = .ok piece) (opened : Nat) (found : List Span)
    (rest : List Char) :
    cutSegments path 0 start opened found position ('/' :: rest) =
      cutSegments path 0 (position + 1) opened (found ++ [⟨piece, start⟩]) (position + 1) rest :=
  Attempt.lift_bind hcut _

/-- With a piece between the start and the position, the scan comes to the segments that the rest is cut
into, the first of them behind that piece. -/
theorem cutSegments_eq {path before piece rest : List Char} (hpath : path = before ++ piece ++ rest)
    (depth opened : Nat) (found : List Span) :
    cutSegments path depth (utf8Len before) opened found (utf8Len before + utf8Len piece) rest =
      Attempt.ofReading ((checkBrackets depth opened (utf8Len before + utf8Len piece) rest).map
        fun _ => found ++
          Span.layOut 1 (utf8Len before) ((cutSlashes depth rest).modifyHead (piece ++ ·))) := by
  induction rest generalizing before piece depth opened found with
  | nil =>
    have hcut : sliceFrom (utf8Len before) path = .ok piece := by
      rw [hpath, List.append_nil, sliceFrom_append]
    rw [cutSegments, checkBrackets, Attempt.lift_bind hcut]
    by_cases hdepth : depth = 0
    · rw [if_neg (by omega), if_pos hdepth, cutSlashes, List.modifyHead_cons, List.append_nil]
      rfl
    · rw [if_pos (by omega), if_neg hdepth]
      rfl
  | cons c rest ih =>
    by_cases hclose : c = ']' ∧ depth = 0
    · obtain ⟨rfl, rfl⟩ := hclose
      rfl
    by_cases hslash : c = '/' ∧ depth = 0
    · -- the piece is whole, and the next one begins behind the slash
      obtain ⟨rfl, rfl⟩ := hslash
      have hcut : slice (utf8Len before) (utf8Len before + utf8Len piece) path = .ok piece := by
        rw [hpath, slice_append]
      have hstart : utf8Len before + utf8Len piece + 1 = utf8Len (before ++ piece ++ ['/']) := by
        rw [utf8Len_append, utf8Len_append]
        rfl
      have hrest := @ih (before ++ piece ++ ['/']) [] (by rw [hpath]; simp) 0 opened
        (found ++ [⟨piece, utf8Len before⟩])
      rw [utf8Len_nil, Nat.add_zero, ← hstart, modifyHead_nil_append] at hrest
      have hcheck : checkBrackets 0 opened (utf8Len before + utf8Len piece) ('/' :: rest) =
          checkBrackets 0 opened (utf8Len before + utf8Len piece + 1) rest := rfl
      have hpieces : cutSlashes 0 ('/' :: rest) = [] :: cutSlashes 0 rest := rfl
      rw [cutSegments_slash hcut, hrest, hcheck, hpieces, List.modifyHead_cons, List.append_nil,
        Span.layOut, List.append_assoc, List.singleton_append]
    · -- the character goes to the piece
      rw [cutSegments_step hclose hslash, checkBrackets, if_neg hclose, cutSlashes, if_neg hslash,
        Nat.add_assoc, ← utf8Len_concat, ih (by rw [hpath]; simp), modifyHead_append_singleton]

theorem segments_eq (path : List Char) : segments path = Attempt.ofReading (Path.segments path) := by
  have hcut := @cutSegments_eq path [] [] path rfl 0 0 []
  rw [utf8Len_nil, Nat.add_zero, modifyHead_nil_append] at hcut
  rw [segments, hcut, Path.segments]
  cases checkBrackets 0 0 0 path <;> rfl

/-! ## Selector and group -/

theorem find?_of_not_mem {wanted : Char} {cs : List Char} (h : wanted ∉ cs) :
    find? wanted cs = none := by
  induction cs with
  | nil => rfl
  | cons c cs ih =>
    obtain ⟨hc, hcs⟩ := not_or.mp (mt List.mem_cons.mpr h)
    rw [find?, if_neg (Ne.symm hc), ih hcs]
    rfl

theorem find?_append {wanted : Char} {front : List Char} (h : wanted ∉ front) (behind : List Char) :
    find? wanted (front ++ wanted :: behind) = some (utf8Len front) := by
  induction front with
  | nil => exact if_pos rfl
  | cons c front ih =>
    obtain ⟨hc, hfront⟩ := not_or.mp (mt List.mem_cons.mpr h)
    rw [List.cons_append, find?, if_neg (Ne.symm hc), ih hfront]
    rfl

theorem sliceSpan_of_slice {s : Span} {start stop : Nat} {piece : List Char}
    (h : slice start stop s.chars = .ok piece) :
    sliceSpan s start stop = .ok ⟨piece, s.offset + start⟩ := by
  rw [sliceSpan, h]
  rfl

theorem cutGroup_eq (segment : Span) :
    cutGroup segment = Attempt.ofReading (Path.cutGroup segment) := by
  obtain ⟨cs, o⟩ := segment
  by_cases hmem : '[' ∈ cs
  · obtain ⟨selector, rest, rfl, hopen⟩ := List.eq_append_cons_of_mem hmem
    have hfront := sliceSpan_of_slice (s := ⟨selector ++ '[' :: rest, o⟩) (slice_front selector _)
    have hback := sliceSpan_of_slice (s := ⟨selector ++ '[' :: rest, o⟩) (slice_back selector _)
    have hlast : (selector ++ '[' :: rest).getLast? = ('[' :: rest).getLast? :=
      List.getLast?_append_of_ne_nil _ (by simp)
    have hreader : Path.cutGroup ⟨selector ++ '[' :: rest, o⟩ =
        if ('[' :: rest).getLast? = some ']' then
          .ok (⟨selector, o⟩, some ⟨'[' :: rest, o + utf8Len selector⟩)
        else .error ⟨.textAfterFilters, o + utf8Len (selector ++ '[' :: rest)⟩ := by
      rw [Path.cutGroup, splitWhile_selector hopen (by simp)]
      rfl
    rw [cutGroup, find?_append hopen, hreader]
    dsimp only
    rw [hlast, Attempt.lift_bind hfront, Attempt.lift_bind hback]
    split <;> rfl
  · rw [cutGroup, find?_of_not_mem hmem, cutGroup_bare hmem]
    rfl

/-! ## Joins -/

/-- No join begins with a byte that closes no bracket, be it one in the middle of a character. -/
theorem joinAt?_of_ne {inside : List Char} {cursor : Nat} {b : UInt8}
    (hbyte : byteAt cursor (bytes inside) = .ok b) (hb : b ≠ byteOf ']') :
    joinAt? inside cursor = .ok none := by
  rw [joinAt?, hbyte]
  exact if_neg hb

/-- Behind a `]` the letters are counted in bytes and come to the word that the reader takes. -/
theorem joinAt?_close (front rest : List Char) :
    joinAt? (front ++ ']' :: rest) (utf8Len front) =
      .ok ((Path.joinAt? (']' :: rest)).map fun (word, _) => (word, word.length)) := by
  have hbyte : byteAt (utf8Len front) (bytes (front ++ ']' :: rest)) = .ok (byteOf ']') := by
    rw [byteAt, bytes_append_getElem?]
    rfl
  have halpha : ∀ x ∈ rest.takeWhile Char.isAlpha, x.isAlpha = true :=
    fun x hx => List.mem_takeWhile_imp hx
  have hletters : ((bytes rest).takeWhile isAlphaByte).length =
      (rest.takeWhile Char.isAlpha).length := by
    rw [takeWhile_bytes, length_bytes, utf8Len_of_isAlpha halpha]
  have hrest := (List.takeWhile_append_dropWhile (p := Char.isAlpha) (l := rest)).symm
  rw [joinAt?, hbyte, Path.joinAt?, if_pos rfl]
  generalize rest.takeWhile Char.isAlpha = word at *
  generalize rest.dropWhile Char.isAlpha = tail at *
  subst hrest
  -- the positions behind the bracket and behind the word
  have hsplit : front ++ ']' :: (word ++ tail) = front ++ [']'] ++ word ++ tail := by simp
  have hone : utf8Len front + 1 = utf8Len (front ++ [']']) := by
    rw [utf8Len_append]
    rfl
  have hfrom : bytesFrom (utf8Len front + 1) (bytes (front ++ ']' :: (word ++ tail))) =
      .ok (bytes (word ++ tail)) := by
    rw [hone, hsplit, List.append_assoc, bytesFrom_append]
  have hword : slice (utf8Len front + 1) (utf8Len front + 1 + word.length)
      (front ++ ']' :: (word ++ tail)) = .ok word := by
    rw [hone, hsplit, ← utf8Len_of_isAlpha halpha, slice_append]
  have hnext : (bytes (front ++ ']' :: (word ++ tail)))[utf8Len front + 1 + word.length]? =
      (bytes tail).head? := by
    rw [hone, hsplit, ← utf8Len_of_isAlpha halpha, ← utf8Len_append, bytes_append_getElem?]
  dsimp only [bind, Except.bind]
  rw [if_pos rfl, hfrom]
  dsimp only
  rw [hletters, hnext, hword]
  by_cases hopen : tail.head? = some '['
  · obtain ⟨behind, rfl⟩ := List.head?_eq_some_iff.mp hopen
    rw [if_pos ((bytes_head?_eq_some_iff (by decide) _).mpr hopen)]
    rfl
  · rw [if_neg (mt (bytes_head?_eq_some_iff (by decide) _).mp hopen)]
    split
    · exact absurd rfl hopen
    · rfl

/-! ## Filter bodies -/

theorem cutBodies_step {inside : Span} {cursor : Nat} (hlt : cursor < (bytes inside.chars).length)
    (hjoin : joinAt? inside.chars cursor = .ok none) (start : Nat) (found : List Span) :
    cutBodies inside start found cursor = cutBodies inside start found (cursor + 1) := by
  rw [cutBodies, if_pos hlt, Attempt.lift_bind hjoin]

/-- The cursor goes through bytes that close no bracket. -/
theorem cutBodies_run {inside : Span} {before run behind : List UInt8}
    (hbytes : bytes inside.chars = before ++ run ++ behind) (hrun : ∀ b ∈ run, b ≠ byteOf ']')
    (start : Nat) (found : List Span) :
    cutBodies inside start found before.length =
      cutBodies inside start found (before.length + run.length) := by
  induction run generalizing before with
  | nil => rfl
  | cons b run ih =>
    obtain ⟨hb, hrest⟩ := List.forall_mem_cons.mp hrun
    have hlt : before.length < (bytes inside.chars).length := by
      rw [hbytes]
      simp
    have hbyte : byteAt before.length (bytes inside.chars) = .ok b := by
      rw [hbytes, List.append_assoc, List.cons_append, byteAt_append]
    have hgo := @ih (before ++ [b]) (by rw [hbytes]; simp) hrest
    rw [List.length_append, List.length_singleton, Nat.add_assoc] at hgo
    rw [cutBodies_step hlt (joinAt?_of_ne hbyte hb), hgo, List.length_cons, Nat.add_comm 1]

/-- Where no join begins the cursor comes behind the character, whatever its bytes are. -/
theorem cutBodies_char {inside : Span} {front rest : List Char} {c : Char}
    (hchars : inside.chars = front ++ c :: rest) (hjoin : Path.joinAt? (c :: rest) = none)
    (start : Nat) (found : List Span) :
    cutBodies inside start found (utf8Len front) =
      cutBodies inside start found (utf8Len front + c.utf8Size) := by
  have hbytes : bytes inside.chars = bytes front ++ String.utf8EncodeChar c ++ bytes rest := by
    rw [hchars, bytes_append, bytes_cons, List.append_assoc]
  by_cases hc : c = ']'
  · subst hc
    have hlt : utf8Len front < (bytes inside.chars).length := by
      rw [hchars, length_bytes, utf8Len_append, utf8Len_cons]
      have := ']'.utf8Size_pos
      omega
    refine cutBodies_step hlt ?_ start found
    rw [hchars, joinAt?_close, hjoin]
    rfl
  · have hrun : ∀ b ∈ String.utf8EncodeChar c, b ≠ byteOf ']' := by
      rintro b hb rfl
      exact hc ((byteOf_mem_iff (by decide)).mp hb)
    have hgo := cutBodies_run hbytes hrun start found
    rwa [length_bytes, String.length_utf8EncodeChar] at hgo

theorem cutBodies_end {inside : Span} {before piece : List Char}
    (hchars : inside.chars = before ++ piece) (found : List Span) :
    cutBodies inside (utf8Len before) found (utf8Len before + utf8Len piece) =
      pure (found ++ [⟨piece, inside.offset + utf8Len before⟩]) := by
  have hcut : sliceSpan inside (utf8Len before) (utf8Len inside.chars) =
      .ok ⟨piece, inside.offset + utf8Len before⟩ := by
    refine sliceSpan_of_slice ?_
    rw [hchars, slice_back]
  have hend : ¬utf8Len before + utf8Len piece < (bytes inside.chars).length := by
    rw [hchars, length_bytes, utf8Len_append]
    exact Nat.lt_irrefl _
  rw [cutBodies, if_neg hend, Attempt.lift_bind hcut]

/-- At a join the word decides, and a body is whole. -/
theorem cutBodies_join {inside : Span} {before piece word behind : List Char}
    (hchars : inside.chars = before ++ piece ++ ']' :: (word ++ '[' :: behind))
    (hword : ∀ c ∈ word, c.isAlpha = true) (found : List Span) :
    cutBodies inside (utf8Len before) found (utf8Len before + utf8Len piece) =
      if isWord "and" word then
        cutBodies inside (utf8Len (before ++ piece ++ ']' :: (word ++ ['['])))
          (found ++ [⟨piece, inside.offset + utf8Len before⟩])
          (utf8Len (before ++ piece ++ ']' :: (word ++ ['['])))
      else if isWord "or" word then
        throw ⟨.orJoin, inside.offset + (utf8Len before + utf8Len piece)⟩
      else throw ⟨.unknownJoin word, inside.offset + (utf8Len before + utf8Len piece)⟩ := by
  have hlt : utf8Len before + utf8Len piece < (bytes inside.chars).length := by
    have := ']'.utf8Size_pos
    rw [hchars, length_bytes, utf8Len_append, utf8Len_append, utf8Len_cons]
    omega
  have hjoin : joinAt? inside.chars (utf8Len before + utf8Len piece) =
      .ok (some (word, word.length)) := by
    have hat : Path.joinAt? (']' :: (word ++ '[' :: behind)) = some (word, behind) :=
      joinAt?_eq_some_iff.mpr ⟨rfl, hword⟩
    rw [hchars, ← utf8Len_append, joinAt?_close, hat]
    rfl
  have hcut : sliceSpan inside (utf8Len before) (utf8Len before + utf8Len piece) =
      .ok ⟨piece, inside.offset + utf8Len before⟩ := by
    refine sliceSpan_of_slice ?_
    rw [hchars, slice_append]
  have hbehind : utf8Len before + utf8Len piece + 1 + word.length + 1 =
      utf8Len (before ++ piece ++ ']' :: (word ++ ['['])) := by
    rw [utf8Len_append, utf8Len_append, utf8Len_join hword]
    omega
  rw [cutBodies, if_pos hlt, Attempt.lift_bind hjoin]
  dsimp only
  rw [Attempt.lift_bind hcut, hbehind]

/-- The same of the scan for joins, whose positions are counted in the span. -/
theorem cutBodies_eq {inside : Span} {pos : Nat} {rest before piece : List Char}
    (hchars : inside.chars = before ++ piece ++ rest)
    (hpos : pos = inside.offset + (utf8Len before + utf8Len piece)) (found : List Span) :
    cutBodies inside (utf8Len before) found (utf8Len before + utf8Len piece) =
      Attempt.ofReading ((cutJoins pos rest).map fun pieces => found ++
        Span.layOut joinLen (inside.offset + utf8Len before) (pieces.modifyHead (piece ++ ·))) := by
  fun_induction cutJoins pos rest generalizing before piece found with
  | case1 pos text word behind hjoin _ hand ih =>
    obtain ⟨rfl, hword⟩ := joinAt?_eq_some_iff.mp hjoin
    have hlen : inside.offset + utf8Len (before ++ piece ++ ']' :: (word ++ ['['])) =
        inside.offset + utf8Len before + utf8Len piece + joinLen := by
      rw [utf8Len_append, utf8Len_append, utf8Len_and (isWord_and_iff.mp hand)]
      omega
    have hgo := @ih (before ++ piece ++ ']' :: (word ++ ['['])) [] (by rw [hchars]; simp)
      (by rw [utf8Len_nil, Nat.add_zero, hlen, hpos]; omega)
      (found ++ [⟨piece, inside.offset + utf8Len before⟩])
    rw [utf8Len_nil, Nat.add_zero, hlen] at hgo
    rw [cutBodies_join hchars hword, if_pos hand, hgo]
    cases cutJoins (pos + joinLen) behind with
    | error fault => rfl
    | ok pieces =>
      dsimp only [Except.map]
      rw [modifyHead_nil_append, List.modifyHead_cons, List.append_nil, Span.layOut, List.append_assoc,
        List.singleton_append]
  | case2 pos text word behind hjoin _ hand hor =>
    obtain ⟨rfl, hword⟩ := joinAt?_eq_some_iff.mp hjoin
    rw [cutBodies_join hchars hword, if_neg hand, if_pos hor, hpos]
    rfl
  | case3 pos text word behind hjoin _ hand hor =>
    obtain ⟨rfl, hword⟩ := joinAt?_eq_some_iff.mp hjoin
    rw [cutBodies_join hchars hword, if_neg hand, if_neg hor, hpos]
    rfl
  | case4 pos =>
    rw [cutBodies_end (by rw [hchars, List.append_nil])]
    dsimp only [Except.map]
    rw [List.modifyHead_cons, List.append_nil]
    rfl
  | case5 pos c rest hjoin ih =>
    have hstep := cutBodies_char hchars hjoin (utf8Len before) found
    rw [utf8Len_append, Nat.add_assoc, ← utf8Len_concat] at hstep
    rw [hstep, ih (by rw [hchars]; simp) (by rw [hpos, utf8Len_concat, Nat.add_assoc, Nat.add_assoc])]
    cases cutJoins (pos + c.utf8Size) rest with
    | error fault => rfl
    | ok pieces =>
      dsimp only [Except.map]
      rw [modifyHead_append_singleton]

theorem filterBodies_eq (inside : List Char) (o : Nat) :
    filterBodies ⟨'[' :: (inside ++ [']']), o⟩ =
      Attempt.ofReading (Path.filterBodies ⟨'[' :: (inside ++ [']']), o⟩) := by
  have hlen : utf8Len ('[' :: (inside ++ [']'])) = utf8Len ['['] + utf8Len inside + 1 := by
    rw [utf8Len_cons, utf8Len_append, utf8Len_cons, utf8Len_nil, ← Nat.add_assoc]
    rfl
  have hcut : sliceSpan ⟨'[' :: (inside ++ [']']), o⟩ 1 (utf8Len ['['] + utf8Len inside) =
      .ok ⟨inside, o + 1⟩ := sliceSpan_of_slice (slice_append ['['] inside [']'])
  have hbodies := @cutBodies_eq ⟨inside, o + 1⟩ (o + 1) inside [] [] rfl rfl []
  simp only [utf8Len_nil, Nat.add_zero, modifyHead_nil_append] at hbodies
  rw [filterBodies, hlen, Attempt.lift_bind (Checked.sub_of_le (Nat.le_add_left ..)), Nat.add_sub_cancel,
    Attempt.lift_bind hcut, hbodies, Path.filterBodies, inside_group]
  cases cutJoins (o + 1) inside <;> rfl

end Indexed
end SceneSelect.Path
