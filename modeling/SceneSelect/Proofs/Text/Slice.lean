import SceneSelect.Proofs.Checked
import SceneSelect.Proofs.Outcome
import SceneSelect.Text.Span

/-!
# `Proofs/Text/Slice.lean` — a text by its byte positions

A text takes its bytes in UTF-8, and some characters take several of them. So a text may be cut at a byte
position only if that lies between two characters; `cutAt` checks this, and it stops exactly at the positions
that are none of the text (`isValid_iff_cutAt`). Positions that were counted off a text are never among
them: **a text is cut without a stop behind any of its beginnings** (`cutAt_append`).

The bytes themselves can be looked at anywhere. A character of ASCII is one byte, and no other character has
that byte in it (`byteOf_mem_iff`), so a search for one finds the same place in the bytes as in the
characters, and the letters at the start of a text are those at the start of its bytes (`takeWhile_bytes`).
-/

set_option autoImplicit false

namespace SceneSelect.Text

/-! ## Cutting -/

/-- The text before a byte position and the text behind it. -/
def cutAt : Nat → List Char → Checked (List Char × List Char)
  | 0, cs => .ok ([], cs)
  | _ + 1, [] => .error .outOfRange
  | n + 1, c :: cs =>
    if c.utf8Size ≤ n + 1 then
      (cutAt (n + 1 - c.utf8Size) cs).map fun (before, behind) => (c :: before, behind)
    else .error .insideCharacter

/-- The text from one byte position to another. -/
def slice (start stop : Nat) (cs : List Char) : Checked (List Char) := do
  let (before, _) ← cutAt stop cs
  let (_, piece) ← cutAt start before
  pure piece

/-- The text from a byte position on. -/
def sliceFrom (start : Nat) (cs : List Char) : Checked (List Char) := (cutAt start cs).map Prod.snd

theorem utf8Len_concat (front : List Char) (c : Char) :
    utf8Len (front ++ [c]) = utf8Len front + c.utf8Size := by
  rw [utf8Len_append, utf8Len_cons, utf8Len_nil, Nat.add_zero]

theorem cutAt_cons {c : Char} {n : Nat} (h : c.utf8Size ≤ n) (cs : List Char) :
    cutAt n (c :: cs) =
      (cutAt (n - c.utf8Size) cs).map fun (before, behind) => (c :: before, behind) := by
  have hpos := c.utf8Size_pos
  obtain ⟨m, rfl⟩ : ∃ m, n = m + 1 := Nat.exists_eq_add_one.mpr (Nat.lt_of_lt_of_le hpos h)
  exact if_pos h

theorem cutAt_append (before behind : List Char) :
    cutAt (utf8Len before) (before ++ behind) = .ok (before, behind) := by
  induction before with
  | nil => rw [utf8Len_nil, List.nil_append, cutAt]
  | cons c before ih =>
    rw [utf8Len_cons, List.cons_append, cutAt_cons (Nat.le_add_right ..), Nat.add_sub_cancel_left, ih]
    rfl

/-- A cut leaves the text as it is, and comes behind as many bytes as it was asked for. -/
theorem cutAt_sound {n : Nat} {cs before behind : List Char} (h : cutAt n cs = .ok (before, behind)) :
    cs = before ++ behind ∧ utf8Len before = n := by
  fun_induction cutAt n cs generalizing before with
  | case1 cs =>
    obtain ⟨rfl, rfl⟩ := Prod.mk.inj (Except.ok.inj h)
    exact ⟨rfl, rfl⟩
  | case2 => exact absurd h (by simp)
  | case3 n c cs hle ih =>
    cases hrest : cutAt (n + 1 - c.utf8Size) cs with
    | error trap =>
      rw [hrest] at h
      exact absurd h (by simp [Except.map])
    | ok pieces =>
      rw [hrest] at h
      obtain ⟨rfl, rfl⟩ := Prod.mk.inj (Except.ok.inj h)
      obtain ⟨hcs, hlen⟩ := ih hrest
      refine ⟨congrArg (c :: ·) hcs, ?_⟩
      rw [utf8Len_cons, hlen]
      omega
  | case4 => exact absurd h (by simp)

/-- A text is cut exactly at its positions. -/
theorem isValid_iff_cutAt {n : Nat} {cs : List Char} :
    String.Pos.Raw.IsValid (String.ofList cs) ⟨n⟩ ↔ ∃ pieces, cutAt n cs = .ok pieces := by
  rw [String.Pos.Raw.isValid_iff_exists_append]
  constructor
  · rintro ⟨before, behind, htext, hn⟩
    have hcs : cs = before.toList ++ behind.toList := by
      rw [← String.toList_append, ← htext, String.toList_ofList]
    have hlen : n = utf8Len before.toList := by
      rw [utf8Len_toList]
      exact congrArg String.Pos.Raw.byteIdx hn
    rw [hcs, hlen]
    exact ⟨_, cutAt_append _ _⟩
  · rintro ⟨⟨before, behind⟩, hcut⟩
    obtain ⟨rfl, rfl⟩ := cutAt_sound hcut
    refine ⟨String.ofList before, String.ofList behind, String.ofList_append, ?_⟩
    rw [← String.toList_ofList (l := before), utf8Len_toList, String.ofList_toList]
    rfl

example : cutAt 1 "é".toList = .error .insideCharacter := by decide

theorem sliceFrom_append (before behind : List Char) :
    sliceFrom (utf8Len before) (before ++ behind) = .ok behind := by
  rw [sliceFrom, cutAt_append]
  rfl

theorem sliceFrom_sound {n : Nat} {cs behind : List Char} (h : sliceFrom n cs = .ok behind) :
    ∃ before, cs = before ++ behind ∧ n = utf8Len before := by
  obtain ⟨⟨before, _⟩, hcut, rfl⟩ := map_eq_ok_iff.mp h
  obtain ⟨hcs, hlen⟩ := cutAt_sound hcut
  exact ⟨before, hcs, hlen.symm⟩

theorem slice_append (before piece behind : List Char) :
    slice (utf8Len before) (utf8Len before + utf8Len piece) (before ++ piece ++ behind) =
      .ok piece := by
  rw [slice, ← utf8Len_append, cutAt_append]
  show (cutAt (utf8Len before) (before ++ piece) >>= fun r => pure r.2) = _
  rw [cutAt_append]
  rfl

theorem slice_front (piece behind : List Char) :
    slice 0 (utf8Len piece) (piece ++ behind) = .ok piece := by
  have hslice := slice_append [] piece behind
  rwa [utf8Len_nil, Nat.zero_add] at hslice

theorem slice_back (before piece : List Char) :
    slice (utf8Len before) (utf8Len (before ++ piece)) (before ++ piece) = .ok piece := by
  have hslice := slice_append before piece []
  rwa [← utf8Len_append, List.append_nil] at hslice

/-! ## Bytes -/

/-- The bytes of a text. -/
def bytes (cs : List Char) : List UInt8 := cs.flatMap String.utf8EncodeChar

@[simp] theorem bytes_nil : bytes [] = [] := rfl

@[simp] theorem bytes_cons (c : Char) (cs : List Char) :
    bytes (c :: cs) = String.utf8EncodeChar c ++ bytes cs := rfl

@[simp] theorem bytes_append (a b : List Char) : bytes (a ++ b) = bytes a ++ bytes b :=
  List.flatMap_append

@[simp] theorem length_bytes (cs : List Char) : (bytes cs).length = utf8Len cs := by
  induction cs with
  | nil => rfl
  | cons c cs ih => rw [bytes_cons, List.length_append, String.length_utf8EncodeChar, ih, utf8Len_cons]

theorem bytes_append_getElem? (front rest : List Char) :
    (bytes (front ++ rest))[utf8Len front]? = (bytes rest).head? := by
  rw [bytes_append, ← length_bytes, List.getElem?_append_right (Nat.le_refl _), Nat.sub_self,
    List.head?_eq_getElem?]

/-- The byte at an index. -/
def byteAt (i : Nat) (bs : List UInt8) : Checked UInt8 :=
  match bs[i]? with
  | some b => .ok b
  | none => .error .outOfRange

/-- The bytes from an index on. -/
def bytesFrom (start : Nat) (bs : List UInt8) : Checked (List UInt8) :=
  if start ≤ bs.length then .ok (bs.drop start) else .error .outOfRange

theorem byteAt_append {before behind : List UInt8} {b : UInt8} :
    byteAt before.length (before ++ b :: behind) = .ok b := by
  rw [byteAt, List.getElem?_append_right (Nat.le_refl _), Nat.sub_self, List.getElem?_cons_zero]

theorem bytesFrom_append (before behind : List Char) :
    bytesFrom (utf8Len before) (bytes (before ++ behind)) = .ok (bytes behind) := by
  have hle : (bytes before).length ≤ (bytes before ++ bytes behind).length := by simp
  rw [bytes_append, ← length_bytes, bytesFrom, if_pos hle, List.drop_left]

/-! ## ASCII -/

/-- The byte of a character of ASCII. -/
def byteOf (c : Char) : UInt8 := UInt8.ofNat c.toNat

/-- Is it the byte of a letter of ASCII? -/
def isAlphaByte (b : UInt8) : Bool := (65 ≤ b && b ≤ 90) || (97 ≤ b && b ≤ 122)

theorem utf8EncodeChar_of_ascii {c : Char} (h : c.toNat < 128) :
    String.utf8EncodeChar c = [byteOf c] :=
  if_pos (Nat.le_of_lt_succ h)

/-- All bytes of any other character have the highest bit. -/
theorem le_of_mem_utf8EncodeChar {c : Char} (h : 128 ≤ c.toNat) {b : UInt8}
    (hb : b ∈ String.utf8EncodeChar c) : 128 ≤ b.toNat := by
  have hc : ¬c.val.toNat ≤ 127 := Nat.not_le_of_lt h
  have hbit : ∀ k m : Nat, 0 < m → m ≤ 64 → 128 ≤ k → k + m ≤ 256 → ∀ n,
      128 ≤ (UInt8.ofNat (n % m + k)).toNat := by
    intro k m hm _ hk hsum n
    have := Nat.mod_lt n hm
    rw [UInt8.toNat_ofNat']
    omega
  rw [String.utf8EncodeChar, if_neg hc] at hb
  split at hb
  · simp only [List.mem_cons, List.not_mem_nil, or_false] at hb
    rcases hb with rfl | rfl <;> exact hbit _ _ (by decide) (by decide) (by decide) (by decide) _
  · split at hb
    · simp only [List.mem_cons, List.not_mem_nil, or_false] at hb
      rcases hb with rfl | rfl | rfl <;> exact hbit _ _ (by decide) (by decide) (by decide) (by decide) _
    · simp only [List.mem_cons, List.not_mem_nil, or_false] at hb
      rcases hb with rfl | rfl | rfl | rfl <;>
        exact hbit _ _ (by decide) (by decide) (by decide) (by decide) _

theorem toNat_byteOf {c : Char} (h : c.toNat < 128) : (byteOf c).toNat = c.toNat := by
  rw [byteOf, UInt8.toNat_ofNat']
  omega

/-- A character of ASCII has its byte for itself. -/
theorem byteOf_mem_iff {c d : Char} (hd : d.toNat < 128) :
    byteOf d ∈ String.utf8EncodeChar c ↔ c = d := by
  constructor
  · intro hmem
    by_cases hc : c.toNat < 128
    · rw [utf8EncodeChar_of_ascii hc, List.mem_singleton] at hmem
      have hnat := congrArg UInt8.toNat hmem
      rw [toNat_byteOf hd, toNat_byteOf hc] at hnat
      exact Char.toNat_inj.mp hnat.symm
    · have hbit := le_of_mem_utf8EncodeChar (Nat.le_of_not_lt hc) hmem
      rw [toNat_byteOf hd] at hbit
      omega
  · rintro rfl
    rw [utf8EncodeChar_of_ascii hd]
    exact List.mem_singleton_self _

theorem exists_utf8EncodeChar_eq_cons (c : Char) : ∃ b more, String.utf8EncodeChar c = b :: more := by
  refine List.exists_cons_of_ne_nil fun hnil => ?_
  have hlen := String.length_utf8EncodeChar c
  rw [hnil] at hlen
  exact absurd c.utf8Size_pos (Nat.not_lt_of_le (Nat.le_of_eq hlen.symm))

theorem bytes_head?_eq_some_iff {d : Char} (hd : d.toNat < 128) (cs : List Char) :
    (bytes cs).head? = some (byteOf d) ↔ cs.head? = some d := by
  cases cs with
  | nil => simp
  | cons c cs =>
    obtain ⟨b, more, hbytes⟩ := exists_utf8EncodeChar_eq_cons c
    rw [bytes_cons, hbytes, List.cons_append, List.head?_cons, List.head?_cons, Option.some_inj,
      Option.some_inj]
    constructor
    · rintro rfl
      exact (byteOf_mem_iff hd).mp (hbytes ▸ List.mem_cons_self)
    · rintro rfl
      rw [utf8EncodeChar_of_ascii hd] at hbytes
      exact (List.cons.inj hbytes).1.symm

theorem isAlphaByte_byteOf {c : Char} (h : c.toNat < 128) : isAlphaByte (byteOf c) = c.isAlpha := by
  have hall : ∀ n < 128, isAlphaByte (byteOf (Char.ofNat n)) = (Char.ofNat n).isAlpha := by
    decide +kernel
  have hc := hall c.toNat h
  rwa [Char.ofNat_toNat] at hc

theorem isAlphaByte_of_le {b : UInt8} (h : 128 ≤ b.toNat) : isAlphaByte b = false := by
  have hletters : ¬b.toNat ≤ 90 ∧ ¬b.toNat ≤ 122 := by omega
  simp [isAlphaByte, UInt8.le_iff_toNat_le, hletters.1, hletters.2]

theorem toNat_lt_of_isAlpha {c : Char} (h : c.isAlpha = true) : c.toNat < 128 := by
  rcases Bool.or_eq_true_iff.mp h with hupper | hlower
  · have hle : c.val ≤ 'Z'.val := (of_decide_eq_true hupper).2
    exact Nat.lt_of_le_of_lt (UInt32.le_iff_toNat_le.mp hle) (by decide)
  · have hle : c.val ≤ 'z'.val := of_decide_eq_true (Bool.and_eq_true_iff.mp hlower).2
    exact Nat.lt_of_le_of_lt (UInt32.le_iff_toNat_le.mp hle) (by decide)

/-- The letters at the start of a text are the letters at the start of its bytes. -/
theorem takeWhile_bytes (cs : List Char) :
    (bytes cs).takeWhile isAlphaByte = bytes (cs.takeWhile Char.isAlpha) := by
  induction cs with
  | nil => rfl
  | cons c cs ih =>
    by_cases hc : c.toNat < 128
    · rw [bytes_cons, utf8EncodeChar_of_ascii hc, List.singleton_append, List.takeWhile_cons,
        isAlphaByte_byteOf hc, List.takeWhile_cons]
      cases c.isAlpha with
      | true =>
        rw [if_pos rfl, if_pos rfl, ih, bytes_cons, utf8EncodeChar_of_ascii hc]
        rfl
      | false => rfl
    · obtain ⟨b, more, hbytes⟩ := exists_utf8EncodeChar_eq_cons c
      have hb : isAlphaByte b = false := isAlphaByte_of_le
        (le_of_mem_utf8EncodeChar (Nat.le_of_not_lt hc) (hbytes ▸ List.mem_cons_self))
      have halpha : ¬c.isAlpha = true := fun h => hc (toNat_lt_of_isAlpha h)
      rw [bytes_cons, hbytes, List.cons_append, List.takeWhile_cons_of_neg (by simp [hb]),
        List.takeWhile_cons_of_neg halpha]
      rfl

theorem utf8Len_of_isAlpha {word : List Char} (h : ∀ c ∈ word, c.isAlpha = true) :
    utf8Len word = word.length := by
  induction word with
  | nil => rfl
  | cons c word ih =>
    obtain ⟨hc, hword⟩ := List.forall_mem_cons.mp h
    have hone : c.utf8Size = 1 := by
      rw [← String.length_utf8EncodeChar, utf8EncodeChar_of_ascii (toNat_lt_of_isAlpha hc)]
      rfl
    rw [utf8Len_cons, hone, ih hword, List.length_cons, Nat.add_comm]

end SceneSelect.Text
