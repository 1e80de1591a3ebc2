import SceneSelect.Proofs.Outcome
import SceneSelect.Proofs.Path.Grammar

/-!
# `Proofs/Path/Filter.lean` — reading a filter body

A body is first tried as a position, and only a body that does not look like one is read by its first
character. No two kinds of body begin alike: a position begins with `l`, `-` or a digit
(`readPosition_eq_none`), the others with `:`, `t`, `@` and `$`. So the order of the attempts does not
show in what is accepted, and `readFilter_eq_ok_iff` has no side conditions.

The one search is that for the operator behind a name. It runs from the left and stops at the first
place where an operator begins (`splitTest?_eq_some_iff`), which settles the overlapping ones: a `*=`
is found at its star, before the `=` in it.
-/

set_option autoImplicit false

namespace SceneSelect.Path

open Text

/-! ## Positions -/

theorem behindStart?_eq_some_iff {start cs rest : List Char} :
    behindStart? start cs = some rest ↔ cs = start ++ rest := by
  rw [behindStart?]
  constructor
  · intro h
    split at h
    · rename_i hp
      obtain ⟨t, rfl⟩ := List.isPrefixOf_iff_prefix.mp hp
      rw [List.drop_left] at h
      rw [Option.some.inj h]
    · exact absurd h (by simp)
  · rintro rfl
    rw [if_pos (List.isPrefixOf_iff_prefix.mpr (List.prefix_append start rest)), List.drop_left]

theorem behindStart?_cons_ne {c d : Char} {start cs : List Char} (h : c ≠ d) :
    behindStart? (c :: start) (d :: cs) = none := by
  simp [behindStart?, h]

theorem isDigits_cons {c : Char} {cs : List Char} (h : Numeral.isDigits (c :: cs) = true) :
    c.isDigit = true :=
  (Numeral.isDigits_iff.mp h).2 c List.mem_cons_self

theorem readPosition_eq_none {c : Char} {cs : List Char} (pos : Nat) (hl : 'l' ≠ c) (hm : c ≠ '-')
    (hd : c.isDigit = false) : readPosition pos (c :: cs) = .ok none := by
  have hlast : behindStart? "last()".toList (c :: cs) = none := behindStart?_cons_ne hl
  have hdigits : Numeral.isDigits (Numeral.dropSign '-' (c :: cs)) = false := by
    simp [Numeral.dropSign, hm, Numeral.isDigits, hd]
  rw [readPosition, hlast, hdigits]
  rfl

theorem readLastOffset?_eq_some_iff {cs : List Char} {offset : Int64} :
    readLastOffset? cs = some offset ↔ (cs = [] ∧ offset = 0) ∨
      ∃ ds, cs = '-' :: ds ∧ Numeral.isDigits ds = true ∧
        Numeral.ofDigits ds < Numeral.signed64 ∧
          offset = -Int64.ofNat (Numeral.ofDigits ds) := by
  cases cs with
  | nil =>
    constructor
    · intro h
      exact Or.inl ⟨rfl, (Option.some.inj h).symm⟩
    · rintro (⟨-, rfl⟩ | ⟨ds, h, -⟩)
      · rfl
      · exact absurd h (by simp)
  | cons c ds =>
    rw [readLastOffset?]
    constructor
    · intro h
      split at h
      · rename_i hform
        obtain ⟨rfl, hd, hlt⟩ := hform
        exact Or.inr ⟨ds, rfl, hd, hlt, (Option.some.inj h).symm⟩
      · exact absurd h (by simp)
    · rintro (⟨h, -⟩ | ⟨ds, h, hd, hlt, rfl⟩)
      · exact absurd h (by simp)
      · obtain ⟨rfl, rfl⟩ := List.cons.inj h
        rw [if_pos ⟨rfl, hd, hlt⟩]

theorem readInt64?_eq_some_iff {cs : List Char} {n : Int64}
    (hd : Numeral.isDigits (Numeral.dropSign '-' cs) = true) :
    readInt64? cs = some n ↔ PositionText cs (.nth n) := by
  cases cs with
  | nil => exact absurd hd (by decide)
  | cons c ds =>
    by_cases hc : c = '-'
    · subst hc
      have hdigits : Numeral.isDigits ds = true := hd
      constructor
      · intro h
        simp only [readInt64?, List.head?_cons, if_true] at h
        split at h
        · rename_i hle
          rw [← Option.some.inj h]
          exact .negative hdigits hle
        · exact absurd h (by simp)
      · intro h
        cases h with
        | number hneg => exact absurd (isDigits_cons hneg) (by decide)
        | negative _ hle => exact if_pos hle
    · have hsign : Numeral.dropSign '-' (c :: ds) = c :: ds := if_neg hc
      have hhead : (c :: ds).head? ≠ some '-' := fun h => hc (Option.some.inj h)
      rw [hsign] at hd
      rw [readInt64?, hsign, if_neg hhead]
      constructor
      · intro h
        split at h
        · rename_i hlt
          rw [← Option.some.inj h]
          exact .number hd hlt
        · exact absurd h (by simp)
      · intro h
        cases h with
        | number _ hlt => exact if_pos hlt
        | negative => exact absurd rfl hc

theorem PositionText.number_of_nth {cs : List Char} {n : Int64} (h : PositionText cs (.nth n)) :
    behindStart? "last()".toList cs = none ∧
      Numeral.isDigits (Numeral.dropSign '-' cs) = true := by
  cases h with
  | number hd =>
    obtain ⟨c, ds, rfl⟩ : ∃ c ds, cs = c :: ds := by
      cases cs with
      | nil => exact absurd hd (by decide)
      | cons c ds => exact ⟨c, ds, rfl⟩
    have hdigit := isDigits_cons hd
    have hl : 'l' ≠ c := by
      rintro rfl
      exact absurd hdigit (by decide)
    have hm : c ≠ '-' := by
      rintro rfl
      exact absurd hdigit (by decide)
    rw [Numeral.dropSign, if_neg hm]
    exact ⟨behindStart?_cons_ne hl, hd⟩
  | negative hd => exact ⟨behindStart?_cons_ne (by decide), hd⟩

theorem readPosition_eq_some_iff {pos : Nat} {cs : List Char} {p : Position} :
    readPosition pos cs = .ok (some p) ↔ PositionText cs p := by
  constructor
  · intro h
    rw [readPosition] at h
    split at h
    · rename_i rest hrest
      obtain rfl := behindStart?_eq_some_iff.mp hrest
      split at h
      · rename_i offset hoffset
        obtain rfl := Option.some.inj (Except.ok.inj h)
        rcases readLastOffset?_eq_some_iff.mp hoffset with ⟨rfl, rfl⟩ | ⟨ds, rfl, hd, hlt, rfl⟩
        · exact .last
        · exact .beforeLast hd hlt
      · exact absurd h (by simp)
    · split at h
      · rename_i hd
        split at h
        · rename_i n hn
          obtain rfl := Option.some.inj (Except.ok.inj h)
          exact (readInt64?_eq_some_iff hd).mp hn
        · exact absurd h (by simp)
      · exact absurd h (by simp)
  · intro h
    rw [readPosition]
    cases p with
    | nth n =>
      obtain ⟨hlast, hd⟩ := h.number_of_nth
      rw [hlast]
      dsimp only
      rw [if_pos hd, (readInt64?_eq_some_iff hd).mpr h]
    | last offset =>
      obtain ⟨rest, rfl, hrest⟩ : ∃ rest, cs = "last()".toList ++ rest ∧
          readLastOffset? rest = some offset := by
        cases h with
        | last => exact ⟨[], rfl, rfl⟩
        | beforeLast hd hlt =>
          exact ⟨'-' :: _, rfl, readLastOffset?_eq_some_iff.mpr (Or.inr ⟨_, rfl, hd, hlt, rfl⟩)⟩
      rw [behindStart?_eq_some_iff.mpr rfl]
      dsimp only
      rw [hrest]

/-! ## Tests and names -/

theorem readTest?_eq_some_iff {cs : List Char} {test : ValueTest} :
    readTest? cs = some test ↔ cs = test.chars := by
  constructor
  · intro h
    unfold readTest? at h
    split at h
    case h_5 => exact absurd h (by simp)
    all_goals
      obtain rfl := Option.some.inj h
      simp [ValueTest.chars, Comparison.operator]
  · rintro rfl
    obtain ⟨comparison, value⟩ := test
    cases comparison <;> simp [readTest?, ValueTest.chars, Comparison.operator]

/-- The search stops at the leftmost operator. -/
theorem splitTest?_eq_some_iff {cs name : List Char} {test : ValueTest} :
    splitTest? cs = some (name, test) ↔ cs = name ++ test.chars ∧
      ∀ before behind : List Char, name = before ++ behind → behind ≠ [] →
        ∀ other : ValueTest, behind ++ test.chars ≠ other.chars := by
  induction cs generalizing name with
  | nil =>
    refine iff_of_false (by simp [splitTest?]) fun ⟨h, _⟩ => ?_
    obtain ⟨-, h⟩ := List.append_eq_nil_iff.mp h.symm
    exact absurd (readTest?_eq_some_iff.mpr h.symm) (by simp [readTest?])
  | cons c rest ih =>
    rw [splitTest?]
    cases hread : readTest? (c :: rest) with
    | some found =>
      have hfound := readTest?_eq_some_iff.mp hread
      constructor
      · intro h
        obtain ⟨rfl, rfl⟩ := Prod.mk.inj (Option.some.inj h)
        refine ⟨hfound, fun before behind hn hne => ?_⟩
        exact absurd (List.append_eq_nil_iff.mp hn.symm).2 hne
      · rintro ⟨h, hleft⟩
        -- a name in front of the test would hold the operator that begins right here
        by_cases hname : name = []
        · rw [hname, List.nil_append] at h
          rw [hname, Option.some.inj (hread.symm.trans (readTest?_eq_some_iff.mpr h))]
        · exact absurd (h.symm.trans hfound) (hleft [] name rfl hname found)
    | none =>
      have hnone : ∀ other : ValueTest, c :: rest ≠ other.chars := fun other h =>
        absurd (hread.symm.trans (readTest?_eq_some_iff.mpr h)) (by simp)
      constructor
      · intro h
        obtain ⟨⟨tail, found⟩, hfound, heq⟩ := Option.map_eq_some_iff.mp h
        obtain ⟨rfl, rfl⟩ := Prod.mk.inj heq
        obtain ⟨rfl, hleft⟩ := ih.mp hfound
        refine ⟨rfl, fun before behind hn hne other => ?_⟩
        cases before with
        | nil =>
          rw [List.nil_append] at hn
          rw [← hn]
          exact hnone other
        | cons b before => exact hleft before behind (List.cons.inj hn).2 hne other
      · rintro ⟨h, hleft⟩
        cases name with
        | nil => exact absurd h (hnone test)
        | cons b tail =>
          obtain ⟨rfl, hrest⟩ := List.cons.inj h
          have hfound := ih.mpr ⟨hrest, fun before behind hn =>
            hleft (c :: before) behind (congrArg (c :: ·) hn)⟩
          rw [hfound]
          rfl

theorem readNamed_eq_ok_iff {pos : Nat} {cs : List Char} {s : String} {test : ValueTest} :
    readNamed pos cs = .ok (s, test) ↔ ∃ name, NamedText cs name test ∧ s = String.ofList name := by
  rw [readNamed]
  constructor
  · intro h
    split at h
    · exact absurd h (by simp)
    · exact absurd h (by simp)
    · rename_i name found hne hsplit
      obtain ⟨rfl, rfl⟩ := Prod.mk.inj (Except.ok.inj h)
      obtain ⟨hcs, hleft⟩ := splitTest?_eq_some_iff.mp hsplit
      exact ⟨name, ⟨hcs, hne, hleft⟩, rfl⟩
  · rintro ⟨name, ⟨hcs, hname, hleft⟩, rfl⟩
    obtain ⟨c, tail, rfl⟩ := List.exists_cons_of_ne_nil hname
    rw [splitTest?_eq_some_iff.mpr ⟨hcs, hleft⟩]

/-! ## Bodies -/

theorem filterText_of_readBody {cs : List Char} {o : Nat} {f : Filter}
    (h : readBody ⟨cs, o⟩ = .ok f) : FilterText cs f := by
  unfold readBody at h
  split at h
  · rename_i rest hcs
    obtain rfl : cs = ':' :: rest := hcs
    obtain ⟨result, hread, h⟩ := bind_eq_ok_iff.mp h
    cases result with
    | none => exact absurd h (by simp)
    | some p =>
      obtain rfl := pure_eq_ok_iff.mp h
      exact .childIndex (readPosition_eq_some_iff.mp hread)
  · rename_i rest hcs
    obtain rfl : cs = '@' :: rest := hcs
    obtain ⟨⟨s, test⟩, hread, h⟩ := bind_eq_ok_iff.mp h
    obtain ⟨name, hname, rfl⟩ := readNamed_eq_ok_iff.mp hread
    obtain rfl := pure_eq_ok_iff.mp h
    exact .attr hname
  · rename_i rest hcs
    obtain rfl : cs = '$' :: rest := hcs
    obtain ⟨⟨s, test⟩, hread, h⟩ := bind_eq_ok_iff.mp h
    obtain ⟨name, hname, rfl⟩ := readNamed_eq_ok_iff.mp hread
    obtain rfl := pure_eq_ok_iff.mp h
    exact .data hname
  · split at h
    · rename_i test htest
      obtain ⟨rest, hrest, hop⟩ := Option.bind_eq_some_iff.mp htest
      obtain rfl := Except.ok.inj h
      obtain rfl : cs = "text".toList ++ rest := behindStart?_eq_some_iff.mp hrest
      obtain rfl := readTest?_eq_some_iff.mp hop
      exact .text test
    · exact absurd h (by simp)

theorem readBody_text (test : ValueTest) (o : Nat) :
    readBody ⟨"text".toList ++ test.chars, o⟩ = .ok (.text test) := by
  have htest : (behindStart? "text".toList ("text".toList ++ test.chars)).bind readTest? =
      some test := by
    rw [behindStart?_eq_some_iff.mpr rfl]
    exact readTest?_eq_some_iff.mpr rfl
  unfold readBody
  split
  · next hcs => exact absurd hcs (by simp)
  · next hcs => exact absurd hcs (by simp)
  · next hcs => exact absurd hcs (by simp)
  · rw [htest]

/-- **A body is read exactly when it is a filter, and as the filter that it stands for.** -/
theorem readFilter_eq_ok_iff {body : Span} {f : Filter} :
    readFilter body = .ok f ↔ FilterText body.chars f := by
  obtain ⟨cs, o⟩ := body
  rw [readFilter]
  constructor
  · intro h
    obtain ⟨result, hread, h⟩ := bind_eq_ok_iff.mp h
    cases result with
    | none => exact filterText_of_readBody h
    | some p =>
      obtain rfl := pure_eq_ok_iff.mp h
      exact .index (readPosition_eq_some_iff.mp hread)
  · intro h
    rw [bind_eq_ok_iff]
    -- all but a position are refused as one, and then told apart by their first character
    cases h with
    | index hp => exact ⟨some _, readPosition_eq_some_iff.mpr hp, rfl⟩
    | childIndex hp =>
      refine ⟨none, readPosition_eq_none o (by decide) (by decide) (by decide), ?_⟩
      exact bind_eq_ok_iff.mpr ⟨some _, readPosition_eq_some_iff.mpr hp, rfl⟩
    | text test =>
      refine ⟨none, readPosition_eq_none o (by decide) (by decide) (by decide), ?_⟩
      exact readBody_text test o
    | attr hn =>
      refine ⟨none, readPosition_eq_none o (by decide) (by decide) (by decide), ?_⟩
      exact bind_eq_ok_iff.mpr ⟨_, readNamed_eq_ok_iff.mpr ⟨_, hn, rfl⟩, rfl⟩
    | data hn =>
      refine ⟨none, readPosition_eq_none o (by decide) (by decide) (by decide), ?_⟩
      exact bind_eq_ok_iff.mpr ⟨_, readNamed_eq_ok_iff.mpr ⟨_, hn, rfl⟩, rfl⟩

end SceneSelect.Path
