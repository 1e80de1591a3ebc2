import Mathlib.Data.List.TakeWhile
import SceneSelect.Proofs.Outcome
import SceneSelect.Proofs.Path.Grammar

/-!
# `Proofs/Path/Selector.lean` — reading a selector

A selector is read in three parts: a mode, a tag or a sibling offset, and a name. Each part ends
where a character begins that it cannot hold, so **what the parts must know of each other is the
first character of what follows**: a name is empty or begins with `.` or `#`, and neither of them is
a digit, a tag character or a sign that opens another part. With these boundaries each part is an
equivalence between the reader and its relation, and `readSelector_eq_ok_iff` chains them.
-/

set_option autoImplicit false

namespace SceneSelect.Path

open Text

/-! ## Runs of characters -/

theorem splitWhile_append {p : Char → Bool} {run rest : List Char} {o : Nat}
    (hrun : ∀ c ∈ run, p c = true) (hrest : ∀ c ∈ rest.head?, p c = false) :
    Span.splitWhile p ⟨run ++ rest, o⟩ = (⟨run, o⟩, ⟨rest, o + utf8Len run⟩) := by
  have hstop : rest.takeWhile p = [] ∧ rest.dropWhile p = rest := by
    cases rest with
    | nil => exact ⟨rfl, rfl⟩
    | cons c rest => simp [hrest c rfl]
  simp only [Span.splitWhile, List.takeWhile_append_of_pos hrun,
    List.dropWhile_append_of_pos hrun, hstop, List.append_nil]

theorem splitWhile_sound {p : Char → Bool} {s a b : Span} (h : s.splitWhile p = (a, b)) :
    s.chars = a.chars ++ b.chars ∧ ∀ c ∈ a.chars, p c = true := by
  obtain ⟨rfl, rfl⟩ := Prod.mk.inj h
  exact ⟨List.takeWhile_append_dropWhile.symm, fun c hc => List.mem_takeWhile_imp hc⟩

theorem splitWhile_head {p : Char → Bool} {s a b : Span} (h : s.splitWhile p = (a, b)) :
    ∀ c ∈ b.chars.head?, p c = false := by
  obtain ⟨-, rfl⟩ := Prod.mk.inj h
  intro c hc
  have hstop := List.head?_dropWhile_not p s.chars
  rw [Option.mem_def.mp hc] at hstop
  exact hstop

/-! ## Names -/

theorem NameText.head {n : List Char} {i : Option String} {k : Option KeyTest}
    (h : NameText n i k) : ∀ c ∈ n.head?, c = '.' ∨ c = '#' := by
  intro c hc
  cases h with
  | absent => exact absurd hc (by simp)
  | identity => exact Or.inl (Option.some.inj hc).symm
  | key => exact Or.inr (Option.some.inj hc).symm

theorem readName_eq_ok_iff {step result : Step} {s : Span} (hi : step.identity = none)
    (hk : step.key = none) :
    readName step s = .ok result ↔
      ∃ i k, NameText s.chars i k ∧ result = { step with identity := i, key := k } := by
  obtain ⟨cs, o⟩ := s
  constructor
  · intro h
    cases cs with
    | nil =>
      obtain rfl := Except.ok.inj h
      exact ⟨none, none, .absent, by rw [← hi, ← hk]⟩
    | cons c name =>
      simp only [readName] at h
      by_cases hdot : c = '.'
      · subst hdot
        by_cases hne : name = []
        · exact absurd h (by simp [hne])
        · rw [if_pos rfl, if_neg (by simpa using hne)] at h
          exact ⟨_, none, .identity hne, by rw [← Except.ok.inj h, ← hk]⟩
      · rw [if_neg hdot] at h
        by_cases hhash : c = '#'
        · subst hhash
          by_cases hne : name = []
          · exact absurd h (by simp [hne])
          · rw [if_pos rfl, if_neg (by simpa using hne)] at h
            exact ⟨none, _, .key hne, by rw [← Except.ok.inj h, ← hi]⟩
        · exact absurd h (by simp [hhash])
  · rintro ⟨i, k, hn, rfl⟩
    cases hn with
    | absent =>
      show Except.ok step = _
      rw [← hi, ← hk]
    | identity hne => simp [readName, hne, ← hk]
    | key hne => simp [readName, hne, ← hi]

/-! ## Tags -/

/-- No tag character opens another part of a selector. -/
theorem isTagChar_eq_false {c : Char} (h : c ∈ ['^', '~', '>', '<', '*', '.', '#', '[', ']', '/']) :
    isTagChar c = false := by
  simp only [List.mem_cons, List.not_mem_nil, or_false] at h
  rcases h with rfl | rfl | rfl | rfl | rfl | rfl | rfl | rfl | rfl | rfl <;>
    (rw [isTagChar, isAlphanumeric_of_ascii (by decide)]; decide)

theorem NameText.head_not_tagChar {n : List Char} {i : Option String} {k : Option KeyTest}
    (h : NameText n i k) : ∀ c ∈ n.head?, isTagChar c = false := by
  intro c hc
  rcases h.head c hc with rfl | rfl <;> exact isTagChar_eq_false (by decide)

theorem readTag_run {t n : List Char} {o : Nat} (ht : ∀ c ∈ t, isTagChar c = true)
    (hn : ∀ c ∈ n.head?, isTagChar c = false) (hstar : (t ++ n).head? ≠ some '*') :
    readTag ⟨t ++ n, o⟩ =
      .ok (if t.isEmpty then none else some (.named (String.ofList t)), ⟨n, o + utf8Len t⟩) := by
  simp only [readTag, if_neg hstar, splitWhile_append ht hn, Span.isEmpty]

theorem readTag_of_tagText {t n : List Char} {tag : Option TagTest} {i : Option String}
    {k : Option KeyTest} (ht : TagText t tag) (hn : NameText n i k) (o : Nat) :
    readTag ⟨t ++ n, o⟩ = .ok (tag, ⟨n, o + utf8Len t⟩) := by
  have hstop := hn.head_not_tagChar
  cases ht with
  | absent =>
    refine readTag_run (by simp) hstop fun h => ?_
    rcases hn.head '*' h with h | h <;> exact absurd h (by decide)
  | any =>
    have hnot : n.head?.any isTagChar = false := by
      cases n with
      | nil => rfl
      | cons c n => exact hstop c rfl
    simp [readTag, Span.drop, hnot]
  | named hne h =>
    obtain ⟨c, cs, rfl⟩ := List.exists_cons_of_ne_nil hne
    refine readTag_run h hstop fun hc => ?_
    obtain rfl : c = '*' := Option.some.inj hc
    exact absurd (h '*' List.mem_cons_self) (by rw [isTagChar_eq_false] <;> decide)

theorem tagText_of_readTag {s rest : Span} {tag : Option TagTest}
    (h : readTag s = .ok (tag, rest)) :
    ∃ t, s.chars = t ++ rest.chars ∧ TagText t tag := by
  obtain ⟨cs, o⟩ := s
  dsimp only [readTag] at h
  split at h
  · rename_i hstar
    obtain ⟨cs, rfl⟩ := List.head?_eq_some_iff.mp hstar
    split at h
    · exact absurd h (by simp)
    · obtain ⟨rfl, rfl⟩ := Prod.mk.inj (Except.ok.inj h)
      exact ⟨['*'], rfl, .any⟩
  · rcases hsplit : Span.splitWhile isTagChar ⟨cs, o⟩ with ⟨⟨run, o'⟩, behind⟩
    obtain ⟨hcs, hrun⟩ := splitWhile_sound hsplit
    rw [hsplit] at h
    obtain ⟨rfl, rfl⟩ := Prod.mk.inj (Except.ok.inj h)
    refine ⟨run, hcs, ?_⟩
    cases run with
    | nil => exact .absent
    | cons c run => exact .named (by simp) hrun

/-! ## Sibling offsets -/

theorem siblingText_iff {t : List Char} {offset : Int32} :
    SiblingText t offset ↔ ∃ sign, (sign = '>' ∨ sign = '<') ∧
      ((t = [sign] ∧ offset = signedOffset sign 1) ∨
        ∃ ds, Numeral.isDigits ds = true ∧ 0 < Numeral.ofDigits ds ∧
          Numeral.ofDigits ds < Numeral.signed32 ∧ t = sign :: (ds ++ [sign]) ∧
          offset = signedOffset sign (Numeral.ofDigits ds)) := by
  constructor
  · intro h
    cases h with
    | next => exact ⟨'>', Or.inl rfl, Or.inl ⟨rfl, rfl⟩⟩
    | previous => exact ⟨'<', Or.inr rfl, Or.inl ⟨rfl, rfl⟩⟩
    | ahead hd hpos hlt => exact ⟨'>', Or.inl rfl, Or.inr ⟨_, hd, hpos, hlt, rfl, rfl⟩⟩
    | back hd hpos hlt => exact ⟨'<', Or.inr rfl, Or.inr ⟨_, hd, hpos, hlt, rfl, rfl⟩⟩
  · rintro ⟨sign, rfl | rfl, ⟨rfl, rfl⟩ | ⟨ds, hd, hpos, hlt, rfl, rfl⟩⟩
    · exact .next
    · exact .ahead hd hpos hlt
    · exact .previous
    · exact .back hd hpos hlt

theorem readSibling_of_siblingText {sign : Char} {t n : List Char} {offset : Int32}
    {i : Option String} {k : Option KeyTest} (ht : SiblingText (sign :: t) offset)
    (hn : NameText n i k) (start o : Nat) :
    readSibling sign start ⟨t ++ n, o⟩ = .ok (offset, ⟨n, o + utf8Len t⟩) := by
  obtain ⟨sign', hsign, ⟨heq, rfl⟩ | ⟨ds, hd, hpos, hlt, heq, rfl⟩⟩ := siblingText_iff.mp ht
  · obtain ⟨rfl, rfl⟩ := List.cons.inj heq
    have hstop : ∀ c ∈ n.head?, c.isDigit = false := by
      intro c hc
      rcases hn.head c hc with rfl | rfl <;> decide
    have hrun : Span.splitWhile Char.isDigit ⟨[] ++ n, o⟩ = _ := splitWhile_append (by simp) hstop
    -- a direction alone: what follows it is no digit, so no closing sign is looked for
    rw [List.nil_append] at hrun ⊢
    simp [readSibling, hrun, Span.isEmpty]
  · obtain ⟨rfl, rfl⟩ := List.cons.inj heq
    obtain ⟨hne, hall⟩ := Numeral.isDigits_iff.mp hd
    have hstop : ∀ c ∈ (sign :: n).head?, c.isDigit = false := by
      rintro c ⟨⟩
      rcases hsign with rfl | rfl <;> decide
    have hrun := splitWhile_append (o := o) hall hstop
    rw [List.append_assoc, List.singleton_append]
    simp [readSibling, hrun, Span.isEmpty, hne, Span.drop, Nat.not_le.mpr hlt, Nat.ne_of_gt hpos,
      Nat.add_assoc]

theorem siblingText_of_readSibling {sign : Char} {start : Nat} {s rest : Span} {offset : Int32}
    (hsign : sign = '>' ∨ sign = '<') (h : readSibling sign start s = .ok (offset, rest)) :
    ∃ t, s.chars = t ++ rest.chars ∧ SiblingText (sign :: t) offset := by
  rcases hsplit : s.splitWhile Char.isDigit with ⟨⟨ds, o⟩, ⟨behind, o'⟩⟩
  obtain ⟨hcs, hrun⟩ := splitWhile_sound hsplit
  dsimp only [readSibling] at h
  rw [hsplit] at h
  cases ds with
  | nil =>
    obtain ⟨rfl, rfl⟩ := Prod.mk.inj (Except.ok.inj h)
    exact ⟨[], rfl, siblingText_iff.mpr ⟨sign, hsign, Or.inl ⟨rfl, rfl⟩⟩⟩
  | cons d ds =>
    have hd : Numeral.isDigits (d :: ds) = true := Numeral.isDigits_iff.mpr ⟨by simp, hrun⟩
    simp only [Span.isEmpty, List.isEmpty_cons, Bool.false_eq_true, if_false] at h
    split at h
    · exact absurd h (by simp)
    · rename_i hclose
      obtain ⟨behind, rfl⟩ := List.head?_eq_some_iff.mp (not_not.mp hclose)
      split at h
      · exact absurd h (by simp)
      · rename_i hlt
        split at h
        · exact absurd h (by simp)
        · rename_i hpos
          obtain ⟨rfl, rfl⟩ := Prod.mk.inj (Except.ok.inj h)
          refine ⟨d :: ds ++ [sign], by simp [hcs, Span.drop], siblingText_iff.mpr ⟨sign, hsign, ?_⟩⟩
          exact Or.inr ⟨d :: ds, hd, Nat.pos_of_ne_zero hpos, Nat.not_le.mp hlt, rfl, rfl⟩

/-! ## Selectors -/

/-- The part of a selector between its mode and its name. -/
inductive TargetText : Mode → List Char → Step → Prop where
  | tag {mode : Mode} {t : List Char} {tag : Option TagTest} (ht : TagText t tag) :
      TargetText mode t { mode, tag }
  | sibling {t : List Char} {offset : Int32} (hs : SiblingText t offset) :
      TargetText .exact t { sibling := offset }

theorem TargetText.named {mode : Mode} {t : List Char} {step : Step} (h : TargetText mode t step) :
    step.identity = none ∧ step.key = none := by
  cases h <;> exact ⟨rfl, rfl⟩

theorem TagText.head {t n : List Char} {tag : Option TagTest} {i : Option String}
    {k : Option KeyTest} (ht : TagText t tag) (hn : NameText n i k) :
    ∀ c ∈ (t ++ n).head?, c ∉ ['^', '~', '>', '<'] := by
  intro c hc
  cases ht with
  | absent => rcases hn.head c hc with rfl | rfl <;> decide
  | any =>
    obtain rfl := Option.some.inj hc
    decide
  | named hne h =>
    obtain ⟨d, cs, rfl⟩ := List.exists_cons_of_ne_nil hne
    obtain rfl := Option.some.inj hc
    intro hmem
    have hnot : isTagChar d = false :=
      isTagChar_eq_false (List.mem_append_left ['*', '.', '#', '[', ']', '/'] hmem)
    exact absurd (h d List.mem_cons_self) (by simp [hnot])

theorem TargetText.head {mode : Mode} {t n : List Char} {step : Step} {i : Option String}
    {k : Option KeyTest} (ht : TargetText mode t step) (hn : NameText n i k) :
    ∀ c ∈ (t ++ n).head?, c ≠ '^' ∧ c ≠ '~' := by
  intro c hc
  cases ht with
  | tag ht =>
    have := ht.head hn c hc
    simp only [List.mem_cons, not_or] at this
    exact ⟨this.1, this.2.1⟩
  | sibling hs =>
    obtain ⟨sign, hsign, ⟨rfl, -⟩ | ⟨ds, -, -, -, rfl, -⟩⟩ := siblingText_iff.mp hs
    all_goals
      obtain rfl := Option.some.inj hc
      rcases hsign with rfl | rfl <;> decide

theorem readMode_marker {mode : Mode} {cs : List Char} {o : Nat}
    (h : ∀ c ∈ cs.head?, c ≠ '^' ∧ c ≠ '~') :
    readMode ⟨mode.marker ++ cs, o⟩ = (mode, ⟨cs, o + utf8Len mode.marker⟩) := by
  cases mode with
  | any => rfl
  | ancestor => rfl
  | exact =>
    cases cs with
    | nil => rfl
    | cons c cs =>
      obtain ⟨hup, htilde⟩ := h c rfl
      simp [readMode, Mode.marker, hup, htilde]

theorem marker_of_readMode {s rest : Span} {mode : Mode} (h : readMode s = (mode, rest)) :
    s.chars = mode.marker ++ rest.chars := by
  obtain ⟨cs, o⟩ := s
  dsimp only [readMode] at h
  split at h <;> obtain ⟨rfl, rfl⟩ := Prod.mk.inj h <;> rfl

theorem readTarget_of_targetText {mode : Mode} {t n : List Char} {step : Step} {i : Option String}
    {k : Option KeyTest} (ht : TargetText mode t step) (hn : NameText n i k) (o : Nat) :
    readTarget mode ⟨t ++ n, o⟩ = .ok (step, ⟨n, o + utf8Len t⟩) := by
  cases ht with
  | @tag _ _ tag ht =>
    have hhead := ht.head hn
    have hread := readTag_of_tagText ht hn o
    cases hcs : t ++ n with
    | nil =>
      -- no character is left to choose by, and there is no tag either
      obtain ⟨rfl, rfl⟩ := List.append_eq_nil_iff.mp hcs
      cases ht with
      | absent => rfl
      | named hne => exact absurd rfl hne
    | cons c cs =>
      rw [hcs] at hhead hread
      have hsign : ¬(c = '>' ∨ c = '<') := by
        have := hhead c rfl
        simp only [List.mem_cons, not_or] at this
        exact not_or.mpr ⟨this.2.2.1, this.2.2.2.1⟩
      dsimp only [readTarget]
      rw [if_neg hsign, hread]
      rfl
  | sibling hs =>
    obtain ⟨sign, hsign, hform⟩ := siblingText_iff.mp hs
    obtain ⟨t, rfl⟩ : ∃ t', t = sign :: t' := by
      rcases hform with ⟨rfl, -⟩ | ⟨ds, -, -, -, rfl, -⟩ <;> exact ⟨_, rfl⟩
    have hread := readSibling_of_siblingText hs hn o (o + sign.utf8Size)
    rw [List.cons_append]
    dsimp only [readTarget, Span.drop]
    rw [if_pos hsign, if_pos rfl]
    simp only [List.drop_succ_cons, List.drop_zero, List.take_succ_cons, List.take_zero,
      utf8Len_cons, utf8Len_nil, Nat.add_zero]
    rw [hread, Nat.add_assoc]
    rfl

theorem targetText_of_readTarget {mode : Mode} {s rest : Span} {step : Step}
    (h : readTarget mode s = .ok (step, rest)) :
    ∃ t, s.chars = t ++ rest.chars ∧ TargetText mode t step := by
  obtain ⟨cs, o⟩ := s
  cases cs with
  | nil =>
    obtain ⟨rfl, rfl⟩ := Prod.mk.inj (Except.ok.inj h)
    exact ⟨[], rfl, .tag .absent⟩
  | cons c cs =>
    dsimp only [readTarget] at h
    split at h
    · rename_i hsign
      split at h
      · rename_i hmode
        obtain ⟨⟨offset, behind⟩, hread, h⟩ := bind_eq_ok_iff.mp h
        obtain ⟨rfl, rfl⟩ := Prod.mk.inj (pure_eq_ok_iff.mp h)
        obtain ⟨t, ht, hs⟩ := siblingText_of_readSibling hsign hread
        subst hmode
        exact ⟨c :: t, congrArg (c :: ·) ht, .sibling hs⟩
      · exact absurd h (by simp)
    · obtain ⟨⟨tag, behind⟩, hread, h⟩ := bind_eq_ok_iff.mp h
      obtain ⟨rfl, rfl⟩ := Prod.mk.inj (pure_eq_ok_iff.mp h)
      obtain ⟨t, ht, htag⟩ := tagText_of_readTag hread
      exact ⟨t, ht, .tag htag⟩

/-- **A selector is read exactly when it is one, and as the step that it stands for.** -/
theorem readSelector_eq_ok_iff {s : Span} {step : Step} :
    readSelector s = .ok step ↔ SelectorText s.chars step := by
  obtain ⟨cs, o⟩ := s
  rw [readSelector]
  constructor
  · intro h
    rcases hmode : readMode ⟨cs, o⟩ with ⟨mode, behind⟩
    rw [hmode] at h
    obtain ⟨⟨target, behind'⟩, htarget, hname⟩ := bind_eq_ok_iff.mp h
    obtain ⟨t, hbehind, ht⟩ := targetText_of_readTarget htarget
    obtain ⟨i, k, hn, rfl⟩ := (readName_eq_ok_iff ht.named.1 ht.named.2).mp hname
    have hcs : cs = mode.marker ++ (t ++ behind'.chars) := hbehind ▸ marker_of_readMode hmode
    subst hcs
    cases ht with
    | tag ht =>
      rw [← List.append_assoc]
      exact .node ht hn
    | sibling hs =>
      rw [Mode.marker, List.nil_append]
      exact .sibling hs hn
  · intro h
    obtain ⟨mode, t, n, target, i, k, hcs, ht, hn, rfl⟩ : ∃ mode t n target i k,
        cs = mode.marker ++ (t ++ n) ∧ TargetText mode t target ∧ NameText n i k ∧
          step = { target with identity := i, key := k } := by
      cases h with
      | node ht hn => exact ⟨_, _, _, _, _, _, List.append_assoc .., .tag ht, hn, rfl⟩
      | sibling hs hn => exact ⟨.exact, _, _, _, _, _, rfl, .sibling hs, hn, rfl⟩
    subst hcs
    -- a mode that is not written must not be found either: nothing behind it looks like one
    rw [readMode_marker (ht.head hn)]
    dsimp only
    rw [readTarget_of_targetText ht hn]
    exact (readName_eq_ok_iff ht.named.1 ht.named.2).mpr ⟨i, k, hn, rfl⟩

end SceneSelect.Path
