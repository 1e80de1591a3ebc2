import SceneSelect.Proofs.Path.Moved
import SceneSelect.Proofs.Path.Recognition
import SceneSelect.Proofs.Path.Written

/-!
# `Proofs/Path/Append.lean` — paths one behind the other

Between two paths stands a slash. The text in front is balanced, so that the slash is a place to cut at,
and what stands behind it is cut and read as it would be alone, as many bytes further on as the text in
front and the slash take. Hence

> **reading a text behind a path is reading it alone**: a path behind a path has the steps of both, and a
> text that is no path is wrong for the same cause, at its place in the whole.

`readPath_behind` says both at once. The parts of the reader that go over the whole text, the check of
the brackets, the cut at the slashes and the search for an empty segment, are each shown to pass over the
text in front; the rest is `readSegment_moved`. The shortest paths are single segments; that of a sibling
step is the direction with a distance (`parse_ahead`, `parse_back`).
-/

set_option autoImplicit false

namespace SceneSelect.Path

open Text

/-! ## The text in front -/

/-- Outside all brackets it does not matter where the last one opened. -/
theorem checkBrackets_outside (opened opened' pos : Nat) (cs : List Char) :
    checkBrackets 0 opened pos cs = checkBrackets 0 opened' pos cs := by
  induction cs generalizing pos with
  | nil => rfl
  | cons c rest ih =>
    unfold checkBrackets
    by_cases hopen : c = '['
    · simp [hopen]
    · have hdepth : depthAfter c 0 = 0 := by
        simp [depthAfter, hopen]
      simp only [hopen, false_and, if_false, hdepth]
      rw [ih]

/-- The check passes over a balanced text. -/
theorem checkBrackets_append {d opened pos : Nat} {front : List Char}
    (h : checkBrackets d opened pos front = .ok ()) (rest : List Char) :
    checkBrackets d opened pos (front ++ rest) = checkBrackets 0 0 (pos + utf8Len front) rest := by
  induction front generalizing d opened pos with
  | nil =>
    have hd : d = 0 := by simpa [checkBrackets] using h
    rw [hd, checkBrackets_outside opened 0]
    rfl
  | cons c front ih =>
    rw [checkBrackets] at h
    split at h
    · exact absurd h (by simp)
    · rename_i hclose
      rw [List.cons_append, checkBrackets, if_neg hclose, ih h, utf8Len_cons, Nat.add_assoc]

/-- A slash behind it leaves the depth at zero. -/
theorem checkBrackets_behind {front : List Char} (h : checkBrackets 0 0 0 front = .ok ())
    (back : List Char) :
    checkBrackets 0 0 0 (front ++ '/' :: back) =
      (checkBrackets 0 0 0 back).moved (utf8Len front + 1) id := by
  have hslash : depthAfter '/' 0 = 0 ∧ '/'.utf8Size = 1 := by decide
  rw [checkBrackets_append h, checkBrackets, if_neg (by decide), hslash.1, hslash.2, Nat.zero_add,
    checkBrackets_outside _ (utf8Len front + 1)]
  exact checkBrackets_moved (utf8Len front + 1) 0 0 0 back

/-- The cut at slashes takes a balanced text as it would alone, and goes on behind the slash. -/
theorem cutSlashes_behind {d opened pos : Nat} {front : List Char}
    (h : checkBrackets d opened pos front = .ok ()) (back : List Char) :
    cutSlashes d (front ++ '/' :: back) = cutSlashes d front ++ cutSlashes 0 back := by
  induction front generalizing d opened pos with
  | nil =>
    have hd : d = 0 := by simpa [checkBrackets] using h
    simp [cutSlashes, hd]
  | cons c front ih =>
    rw [checkBrackets] at h
    split at h
    · exact absurd h (by simp)
    · rw [List.cons_append, cutSlashes, cutSlashes]
      split
      · rename_i hslash
        have hdepth : depthAfter c d = 0 := by simp [depthAfter, hslash.1, hslash.2]
        rw [hdepth] at h
        rw [ih h, List.cons_append]
      · obtain ⟨piece, pieces, hpieces⟩ :=
          List.exists_cons_of_ne_nil (cutSlashes_ne_nil (depthAfter c d) front)
        rw [ih h, hpieces]
        rfl

/-- Segments behind others are laid out behind them and the slash. -/
theorem layOut_append {front : List (List Char)} (hfront : front ≠ []) (o : Nat)
    (back : List (List Char)) :
    Span.layOut 1 o (front ++ back) =
      Span.layOut 1 o front ++ Span.layOut 1 (o + utf8Len (['/'].intercalate front) + 1) back := by
  induction front generalizing o with
  | nil => exact absurd rfl hfront
  | cons piece rest ih =>
    by_cases hrest : rest = []
    · simp [hrest, Span.layOut]
    · have hslash : utf8Len ['/'] = 1 := by decide
      rw [List.cons_append, Span.layOut, Span.layOut, ih hrest, List.cons_append,
        List.intercalate_cons_of_ne_nil hrest, utf8Len_append, utf8Len_append, hslash]
      congr 3
      omega

theorem noneEmpty_append {cause : SyntaxCause} {front : List Span}
    (h : ∀ s ∈ front, s.chars ≠ []) (back : List Span) :
    noneEmpty cause (front ++ back) = (noneEmpty cause back).map (front ++ ·) := by
  have hnone : front.find? Span.isEmpty = none := by simpa [Span.isEmpty] using h
  unfold noneEmpty
  rw [List.find?_append, hnone, Option.none_or]
  cases back.find? Span.isEmpty <;> rfl

/-- The segments of a text behind a path, and those of the path before them. -/
theorem segments_behind {front : List Char} {spans : List Span} (h : segments front = .ok spans)
    (back : List Char) :
    segments (front ++ '/' :: back) =
      (segments back).moved (utf8Len front + 1)
        fun more => spans ++ more.map (Span.moved (utf8Len front + 1)) := by
  obtain ⟨_, hcheck, hpass⟩ := bind_eq_ok_iff.mp h
  obtain ⟨rfl, hfull⟩ := noneEmpty_eq_ok_iff.mp hpass
  unfold segments
  rw [checkBrackets_behind hcheck, cutSlashes_behind hcheck, layOut_append (cutSlashes_ne_nil 0 front),
    intercalate_cutSlashes, Nat.zero_add, ← Nat.add_zero (utf8Len front + 1), Span.layOut_moved]
  refine Reading.moved_bind fun _ => ?_
  rw [noneEmpty_append hfull, noneEmpty_moved]
  cases noneEmpty .emptySegment (Span.layOut 1 0 (cutSlashes 0 back)) <;> rfl

/-! ## Paths -/

namespace PathText

theorem sibling {cs : List Char} {offset : Int32} (h : SiblingText cs offset) :
    PathText cs [{ sibling := offset }] := by
  obtain ⟨hbalanced, hslashes⟩ := through_zero_iff.mp (through_plain h.plain 0)
  have hsegment : SegmentText cs { sibling := offset } := by
    refine .bare (fun hmem => (h.plain '[' hmem).1 rfl) ?_
    have hselector := SelectorText.sibling h .absent
    rwa [List.append_nil] at hselector
  refine ⟨hbalanced, [cs], by simp, by rw [List.intercalate_singleton], ?_⟩
  exact .cons ⟨h.ne_nil, hbalanced, hslashes, hsegment⟩ .nil

end PathText

theorem readPath_behind {front : List Char} {path : List Step} (h : readPath front = .ok path)
    (back : List Char) :
    readPath (front ++ '/' :: back) =
      (readPath back).moved (utf8Len front + 1) (path ++ ·) := by
  obtain ⟨spans, hspans, hread⟩ := bind_eq_ok_iff.mp h
  unfold readPath
  rw [segments_behind hspans]
  refine Reading.moved_bind fun more => ?_
  rw [List.mapM_append, hread, mapM_readSegment_moved]
  cases more.mapM readSegment <;> rfl

/-- A path behind a path is a path. -/
theorem parse_append {text more : String} {path rest : List Step} (h : parse text = .ok path)
    (h' : parse more = .ok rest) : parse (text ++ "/" ++ more) = .ok (path ++ rest) := by
  rw [parse, String.toList_append, String.toList_append, List.append_assoc]
  have hboth := readPath_behind h more.toList
  rw [show readPath more.toList = .ok rest from h'] at hboth
  exact hboth

theorem parse_ahead {n : Nat} (hpos : 0 < n) (hlt : n < Numeral.signed32) :
    parse (">" ++ toString n ++ ">") = .ok [{ sibling := Int32.ofNat n }] := by
  have hvalue := Numeral.ofDigits_digits n
  have htext := SiblingText.ahead (Numeral.isDigits_digits n) (hvalue.symm ▸ hpos) (hvalue.symm ▸ hlt)
  rw [hvalue] at htext
  rw [parse, String.toList_append, String.toList_append, Nat.toString_eq_repr, Nat.toList_repr]
  exact readPath_eq_ok_iff.mpr (.sibling htext)

theorem parse_back {n : Nat} (hpos : 0 < n) (hlt : n < Numeral.signed32) :
    parse ("<" ++ toString n ++ "<") = .ok [{ sibling := -Int32.ofNat n }] := by
  have hvalue := Numeral.ofDigits_digits n
  have htext := SiblingText.back (Numeral.isDigits_digits n) (hvalue.symm ▸ hpos) (hvalue.symm ▸ hlt)
  rw [hvalue] at htext
  rw [parse, String.toList_append, String.toList_append, Nat.toString_eq_repr, Nat.toList_repr]
  exact readPath_eq_ok_iff.mpr (.sibling htext)

/-- **Reading composes, and faults stand at their place in the whole.** -/
theorem parse_behind {front : String} {path : List Step} (h : parse front = .ok path)
    (back : String) :
    (∀ rest, parse back = .ok rest → parse (front ++ "/" ++ back) = .ok (path ++ rest)) ∧
      ∀ fault, parse back = .error fault →
        parse (front ++ "/" ++ back) =
          .error ⟨fault.cause, front.utf8ByteSize + 1 + fault.position⟩ := by
  constructor
  · intro rest hback
    exact parse_append h hback
  · intro fault hback
    have hboth := readPath_behind h back.toList
    rw [show readPath back.toList = .error fault from hback, utf8Len_toList] at hboth
    rw [parse, String.toList_append, String.toList_append, List.append_assoc]
    exact hboth

/-- A text of two letters and three bytes stands in front of an index that is not alone. -/
theorem parse_behind_accented :
    parse "né" = .ok [{ tag := some (.named "né") }] ∧
      parse "li[2]AND[text=a]" = .error ⟨.indexNotAlone, 3⟩ ∧
      parse ("né" ++ "/" ++ "li[2]AND[text=a]") = .error ⟨.indexNotAlone, 7⟩ := by
  have hfront : parse "né" = .ok [{ tag := some (.named "né") }] := by decide +kernel
  have hback : parse "li[2]AND[text=a]" = .error ⟨.indexNotAlone, 3⟩ := by decide +kernel
  exact ⟨hfront, hback, (parse_behind hfront _).2 _ hback⟩

end SceneSelect.Path
