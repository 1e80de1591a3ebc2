import SceneSelect.Path.Key

/-!
# `Proofs/Path/Wildcard.lean` — the keys that a test with wildcards accepts

A key test looks for each of its chunks at the leftmost place behind the chunk before, and never goes
back. A key belongs to the test when its chunks can be laid into it in *some* way (`Placed`). The two
agree (`inOrder_iff`), because

> **the leftmost place is never a wrong one**: what stands behind a chunk laid anywhere is an end of
> what stands behind the chunk at its leftmost place, and chunks that can be laid into an end of a text
> can be laid into the whole of it (`Placed.of_suffix`).

`accepts_iff_placed` says it of a test as it is written, with the gaps and the free end named. Chunks
may be empty, overlap each other and repeat.
-/

set_option autoImplicit false

namespace SceneSelect.Path.KeyTest

open Text

/-! ## Laying chunks into a text -/

/-- The chunks stand in the text in this order, none of them overlapping the next. What stands between
them and behind the last one is free. -/
inductive Placed : List (List Char) → List Char → Prop where
  | free (text : List Char) : Placed [] text
  | behind {chunk text : List Char} {rest : List (List Char)} (gap : List Char)
      (h : Placed rest text) : Placed (chunk :: rest) (gap ++ chunk ++ text)

/-- A longer text takes the same chunks: the first gap grows. -/
theorem Placed.of_suffix {chunks : List (List Char)} {text longer : List Char}
    (h : Placed chunks text) (hs : text <:+ longer) : Placed chunks longer := by
  obtain ⟨front, rfl⟩ := hs
  cases h with
  | free => exact .free _
  | @behind chunk text rest gap h =>
    have hgrown : Placed (chunk :: rest) (front ++ gap ++ chunk ++ text) := .behind (front ++ gap) h
    simpa using hgrown

/-- The leftmost search misses no way of laying the chunks. -/
theorem inOrder_iff {chunks : List (List Char)} {text : List Char} :
    inOrder chunks text = true ↔ Placed chunks text := by
  induction chunks generalizing text with
  | nil => exact iff_of_true rfl (.free text)
  | cons chunk rest ih =>
    unfold inOrder
    constructor
    · intro h
      cases hfound : behind? chunk text with
      | none =>
        rw [hfound] at h
        exact absurd h (by simp)
      | some left =>
        rw [hfound] at h
        obtain ⟨gap, rfl⟩ := behind?_sound hfound
        exact .behind gap (ih.mp h)
    · intro h
      cases h with
      | @behind _ text _ gap h =>
        obtain ⟨left, hfound, hsuffix⟩ := behind?_longest gap chunk text
        rw [hfound]
        exact ih.mpr (h.of_suffix hsuffix)

/-- Laid chunks, spelled out: a gap before each chunk, and an end behind the last. -/
theorem placed_iff {chunks : List (List Char)} {text : List Char} :
    Placed chunks text ↔ ∃ gaps : List (List Char), ∃ tail : List Char,
      gaps.length = chunks.length ∧ text = (List.zipWith (· ++ ·) gaps chunks).flatten ++ tail := by
  constructor
  · intro h
    induction h with
    | free text => exact ⟨[], text, rfl, rfl⟩
    | behind gap _ ih =>
      obtain ⟨gaps, tail, hlength, rfl⟩ := ih
      exact ⟨gap :: gaps, tail, by simp [hlength], by simp⟩
  · intro ⟨gaps, tail, hlength, htext⟩
    subst htext
    induction chunks generalizing gaps with
    | nil => exact .free _
    | cons chunk rest ih =>
      cases gaps with
      | nil => exact absurd hlength (by simp)
      | cons gap gaps =>
        have hrest := ih gaps (by simpa using hlength)
        have hplaced : Placed (chunk :: rest) (gap ++ chunk ++ _) := .behind gap hrest
        simpa using hplaced

/-! ## The chunks of a test -/

theorem not_mem_of_mem_splitOn {cs chunk : List Char} (h : chunk ∈ cs.splitOn '*') :
    '*' ∉ chunk := by
  induction cs generalizing chunk with
  | nil => simp_all
  | cons c cs ih =>
    obtain ⟨first, rest, hsplit⟩ := List.exists_cons_of_ne_nil (List.splitOn_ne_nil '*' cs)
    rw [List.splitOn_cons_eq_if_modifyHead] at h
    rw [hsplit] at h ih
    split at h
    · rcases List.mem_cons.mp h with rfl | hmem
      · simp
      · exact ih hmem
    · rename_i hc
      rcases List.mem_cons.mp h with rfl | hmem
      · simp only [List.mem_cons, not_or]
        exact ⟨fun heq => hc (by simp [← heq]), ih List.mem_cons_self⟩
      · exact ih (List.mem_cons_of_mem first hmem)

/-- The chunks are what is left of the test when it is cut at every wildcard. -/
theorem chunks_eq_iff {t : KeyTest} {pieces : List (List Char)} :
    t.chunks = pieces ↔ pieces ≠ [] ∧ t.raw.toList = ['*'].intercalate pieces ∧
      ∀ chunk ∈ pieces, '*' ∉ chunk := by
  unfold chunks
  constructor
  · intro h
    subst h
    exact ⟨List.splitOn_ne_nil '*' _, (List.intercalate_splitOn '*').symm,
      fun _ hmem => not_mem_of_mem_splitOn hmem⟩
  · intro ⟨hne, hraw, hfree⟩
    rw [hraw]
    exact List.splitOn_intercalate '*' hfree hne

/-- A test has a wildcard exactly if it falls into two chunks or more. -/
theorem isWild_iff {t : KeyTest} {first : List Char} {rest : List (List Char)}
    (h : t.chunks = first :: rest) : t.isWild = true ↔ rest ≠ [] := by
  obtain ⟨-, hraw, hfree⟩ := chunks_eq_iff.mp h
  simp only [isWild, List.contains_iff_mem, hraw]
  cases rest with
  | nil =>
    have hfirst : '*' ∉ first := hfree first (by simp)
    simp [hfirst]
  | cons second rest => simp [List.intercalate_cons_cons]

/-- A test with a wildcard is anchored at the start of the key. -/
theorem accepts_of_wild {t : KeyTest} {key : String} {first : List Char} {rest : List (List Char)}
    (h : t.chunks = first :: rest) (hrest : rest ≠ []) :
    t.accepts key = true ↔ ∃ behind, key.toList = first ++ behind ∧ Placed rest behind := by
  rw [accepts, if_pos ((isWild_iff h).mpr hrest), h]
  simp only [Bool.and_eq_true, List.isPrefixOf_iff_prefix, inOrder_iff]
  constructor
  · intro ⟨⟨behind, hkey⟩, hplaced⟩
    rw [← hkey, List.drop_left] at hplaced
    exact ⟨behind, hkey.symm, hplaced⟩
  · intro ⟨behind, hkey, hplaced⟩
    rw [hkey, List.drop_left]
    exact ⟨List.prefix_append first behind, hplaced⟩

/-- **A test accepts the key it spells, or, if it has a wildcard, every key that begins with its first
chunk and holds the others behind it in order.** -/
theorem accepts_iff_placed (pattern key : String) :
    accepts ⟨pattern⟩ key = true ↔
      ('*' ∉ pattern.toList ∧ key = pattern) ∨
        ∃ (first : List Char) (rest : List (List Char)), rest ≠ [] ∧
          pattern.toList = ['*'].intercalate (first :: rest) ∧
          (∀ chunk ∈ first :: rest, '*' ∉ chunk) ∧
          ∃ (gaps : List (List Char)) (tail : List Char), gaps.length = rest.length ∧
            key.toList = first ++ (List.zipWith (· ++ ·) gaps rest).flatten ++ tail := by
  constructor
  · intro h
    obtain ⟨first, rest, hchunks⟩ :=
      List.exists_cons_of_ne_nil (List.splitOn_ne_nil '*' pattern.toList)
    obtain ⟨-, hraw, hfree⟩ := chunks_eq_iff.mp hchunks
    by_cases hrest : rest = []
    · have hplain : isWild ⟨pattern⟩ = false := by simpa [hrest] using isWild_iff hchunks
      rw [accepts, hplain] at h
      refine Or.inl ⟨by simpa [isWild] using hplain, by simpa using h⟩
    · obtain ⟨behind, hkey, hplaced⟩ := (accepts_of_wild hchunks hrest).mp h
      obtain ⟨gaps, tail, hlength, rfl⟩ := placed_iff.mp hplaced
      refine Or.inr ⟨first, rest, hrest, hraw, hfree, gaps, tail, hlength, ?_⟩
      rw [hkey, List.append_assoc]
  · intro h
    rcases h with ⟨hplain, rfl⟩ | ⟨first, rest, hrest, hraw, hfree, gaps, tail, hlength, hkey⟩
    · simp [accepts, isWild, hplain]
    · have hchunks : chunks ⟨pattern⟩ = first :: rest :=
        chunks_eq_iff.mpr ⟨by simp, hraw, hfree⟩
      rw [List.append_assoc] at hkey
      exact (accepts_of_wild hchunks hrest).mpr
        ⟨_, hkey, placed_iff.mpr ⟨gaps, tail, hlength, rfl⟩⟩

/-- Chunks do not overlap: in `aab` there is no `ab` behind the `aa`. -/
example : accepts ⟨"*aa*ab"⟩ "aaab" = true ∧ accepts ⟨"*aa*ab"⟩ "aab" = false := by decide

end SceneSelect.Path.KeyTest
