import SceneSelect.Proofs.Path.Depth

/-!
# `Proofs/Path/Written.lean` — the printed form of a part of a path

A path can be written in more than one way: numbers with leading zeros, a distance of one spelled
out, `-0`. The printer picks one of them. For every part that the grammar knows, **the printed form
is again a text for the part** (`PositionText.written`, `FilterText.written`,
`SelectorText.written`), and it brings in no bracket or slash that was not there: a part is printed
as it stood, or both what stood and what is printed are `Plain`. The two parts that are printed anew,
positions and sibling offsets, are first looked at without a text that they come from
(`positionText_nth`, `positionText_last`, `siblingText_chars`).
-/

set_option autoImplicit false

namespace SceneSelect.Path

open Text

/-! ## Numbers -/

theorem plain_of_isDigits {ds : List Char} (h : Numeral.isDigits ds = true) : Plain ds :=
  .of_class (by decide) (by decide) (by decide) (Numeral.isDigits_iff.mp h).2

theorem Plain.cons {c : Char} {cs : List Char} (hc : Plain [c]) (h : Plain cs) : Plain (c :: cs) :=
  hc.append h

theorem plain_sign {c : Char} (h : c = '-' ∨ c = ':' ∨ c = '>' ∨ c = '<') : Plain [c] := by
  intro x hx
  obtain rfl := List.mem_singleton.mp hx
  rcases h with rfl | rfl | rfl | rfl <;> decide

theorem plain_last : Plain "last()".toList := by
  intro c hc
  simp only [String.reduceToList, List.mem_cons, List.not_mem_nil, or_false] at hc
  rcases hc with rfl | rfl | rfl | rfl | rfl | rfl <;> decide

theorem plain_lastMinus : Plain "last()-".toList :=
  plain_last.append (plain_sign (Or.inl rfl))

/-! ## Positions -/

theorem positionText_nth (n : Int64) : PositionText (Position.nth n).chars (.nth n) := by
  have hlo := n.le_toInt
  have hhi := n.toInt_lt
  have hback : Int64.ofInt n.toInt = n := Int64.ofInt_toInt n
  have hdigits := Numeral.isDigits_digits n.toInt.natAbs
  have hvalue := Numeral.ofDigits_digits n.toInt.natAbs
  rw [Position.chars, Numeral.ofInt]
  by_cases hneg : n.toInt < 0
  · have hle : Numeral.ofDigits (Numeral.digits n.toInt.natAbs) ≤ Numeral.signed64 := by
      rw [hvalue, Numeral.signed64]
      omega
    have hread := PositionText.negative hdigits hle
    rw [hvalue, show -((n.toInt.natAbs : Nat) : Int) = n.toInt by omega, hback] at hread
    rw [if_pos hneg]
    exact hread
  · have hlt : Numeral.ofDigits (Numeral.digits n.toInt.natAbs) < Numeral.signed64 := by
      rw [hvalue, Numeral.signed64]
      omega
    have hread := PositionText.number hdigits hlt
    rw [hvalue, show ((n.toInt.natAbs : Nat) : Int) = n.toInt by omega, hback] at hread
    rw [if_neg hneg]
    exact hread

theorem toInt_neg_offset {n : Nat} (h : n < Numeral.signed64) :
    (-Int64.ofNat n).toInt = -(n : Int) :=
  Int64.toInt_neg_ofNat_of_le (Nat.le_of_lt h)

/-- The distance behind the last item is written without its sign, so only one that counts backwards
is read again, and the least number has no distance. -/
theorem positionText_last {offset : Int64} (hlo : -(Numeral.signed64 : Int) < offset.toInt)
    (hhi : offset.toInt ≤ 0) : PositionText (Position.last offset).chars (.last offset) := by
  rw [Position.chars]
  split
  · rename_i hzero
    rw [hzero]
    exact .last
  · have hvalue := Numeral.ofDigits_digits offset.toInt.natAbs
    have hlt : Numeral.ofDigits (Numeral.digits offset.toInt.natAbs) < Numeral.signed64 := by
      rw [hvalue]
      omega
    have hback : -Int64.ofNat offset.toInt.natAbs = offset := by
      apply Int64.toInt_inj.mp
      rw [toInt_neg_offset (hvalue ▸ hlt)]
      omega
    have hread := PositionText.beforeLast (Numeral.isDigits_digits offset.toInt.natAbs) hlt
    rw [hvalue, hback] at hread
    exact hread

theorem PositionText.written {cs : List Char} {p : Position} (h : PositionText cs p) :
    PositionText p.chars p := by
  cases h with
  | number => exact positionText_nth _
  | negative => exact positionText_nth _
  | last => exact .last
  | beforeLast _ hlt =>
    have hint := toInt_neg_offset hlt
    exact positionText_last (by omega) (by omega)

theorem PositionText.plain {cs : List Char} {p : Position} (h : PositionText cs p) : Plain cs := by
  cases h with
  | number hd => exact plain_of_isDigits hd
  | negative hd => exact (plain_sign (by simp)).cons (plain_of_isDigits hd)
  | last => exact plain_last
  | beforeLast hd => exact plain_lastMinus.append (plain_of_isDigits hd)

/-! ## Filters -/

theorem FilterText.ne_nil {cs : List Char} {f : Filter} (h : FilterText cs f) : cs ≠ [] := by
  cases h with
  | index hp =>
    cases hp with
    | number hd =>
      intro heq
      subst heq
      exact absurd hd (by decide)
    | negative => simp
    | last => decide
    | beforeLast => simp
  | childIndex => simp
  | text => simp
  | attr => simp
  | data => simp

theorem FilterText.written {cs : List Char} {f : Filter} (h : FilterText cs f) :
    FilterText f.chars f := by
  cases h with
  | index hp => exact .index hp.written
  | childIndex hp => exact .childIndex hp.written
  | text test => exact .text test
  | attr hn =>
    have hsplit := hn.split
    rw [Filter.chars, String.toList_ofList, ← hsplit]
    exact .attr hn
  | data hn =>
    have hsplit := hn.split
    rw [Filter.chars, String.toList_ofList, ← hsplit]
    exact .data hn

/-- Only positions are written anew, and they have no bracket or slash. -/
theorem FilterText.eq_or_plain {cs : List Char} {f : Filter} (h : FilterText cs f) :
    f.chars = cs ∨ (Plain cs ∧ Plain f.chars) := by
  cases h with
  | index hp => exact Or.inr ⟨hp.plain, hp.written.plain⟩
  | childIndex hp =>
    have hcolon : Plain [':'] := plain_sign (by simp)
    exact Or.inr ⟨hcolon.cons hp.plain, hcolon.cons hp.written.plain⟩
  | text test => exact Or.inl rfl
  | attr hn =>
    rw [hn.split, Filter.chars, String.toList_ofList]
    exact Or.inl rfl
  | data hn =>
    rw [hn.split, Filter.chars, String.toList_ofList]
    exact Or.inl rfl

theorem FilterText.plain_of_childIndex {cs : List Char} {f : Filter} {p : Position}
    (h : FilterText cs f) (hf : f.childIndex? = some p) : Plain cs := by
  cases h with
  | childIndex hp => exact (plain_sign (by simp)).cons hp.plain
  | index => exact absurd hf (by simp [Filter.childIndex?])
  | text => exact absurd hf (by simp [Filter.childIndex?])
  | attr => exact absurd hf (by simp [Filter.childIndex?])
  | data => exact absurd hf (by simp [Filter.childIndex?])

/-! ## Selectors -/

theorem siblingChars_ahead {offset : Int32} (h : 1 < offset.toInt) :
    siblingChars offset = '>' :: (Numeral.digits offset.toInt.natAbs ++ ['>']) := by
  have hne : ∀ other : Int32, other.toInt ≤ 1 → offset ≠ other := by
    intro other hother heq
    subst heq
    omega
  have hpos : 0 < offset := Int32.lt_iff_toInt_lt.mpr (by simp; omega)
  rw [siblingChars, if_neg (hne 0 (by decide)), if_neg (hne 1 (by decide)),
    if_neg (hne (-1) (by decide)), if_pos hpos]

theorem siblingChars_back {offset : Int32} (h : offset.toInt < -1) :
    siblingChars offset = '<' :: (Numeral.digits offset.toInt.natAbs ++ ['<']) := by
  have hne : ∀ other : Int32, -1 ≤ other.toInt → offset ≠ other := by
    intro other hother heq
    subst heq
    omega
  have hneg : ¬0 < offset := by
    rw [Int32.lt_iff_toInt_lt]
    simp
    omega
  rw [siblingChars, if_neg (hne 0 (by decide)), if_neg (hne 1 (by decide)),
    if_neg (hne (-1) (by decide)), if_neg hneg]

theorem toInt_neg_distance {n : Nat} (h : n < Numeral.signed32) :
    (-Int32.ofNat n).toInt = -(n : Int) := by
  rw [Numeral.signed32] at h
  rw [← Int32.ofInt_eq_ofNat, ← Int32.ofInt_neg, Int32.toInt_ofInt_of_le (by omega) (by omega)]

/-- A distance is written with its direction, so the two ends that have none are left out: zero goes to
no sibling, and the least number has no distance that fits. -/
theorem siblingText_chars {offset : Int32} (hpos : 0 < offset.toInt.natAbs)
    (hlt : offset.toInt.natAbs < Numeral.signed32) : SiblingText (siblingChars offset) offset := by
  have hdigits := Numeral.isDigits_digits offset.toInt.natAbs
  have hvalue := Numeral.ofDigits_digits offset.toInt.natAbs
  have hsome : 0 < Numeral.ofDigits (Numeral.digits offset.toInt.natAbs) := by omega
  have hfits : Numeral.ofDigits (Numeral.digits offset.toInt.natAbs) < Numeral.signed32 := by omega
  -- a distance of one is written as the sign alone
  by_cases hnext : offset = 1
  · rw [hnext]
    exact .next
  by_cases hprevious : offset = -1
  · rw [hprevious]
    exact .previous
  have hone : offset.toInt ≠ 1 := fun h => hnext (Int32.toInt_inj.mp h)
  have hminus : offset.toInt ≠ -1 := fun h => hprevious (Int32.toInt_inj.mp h)
  rw [Numeral.signed32] at hlt
  by_cases hahead : 0 < offset.toInt
  · have hback : Int32.ofNat offset.toInt.natAbs = offset := by
      apply Int32.toInt_inj.mp
      rw [Int32.toInt_ofNat_of_lt hlt]
      omega
    have hread := SiblingText.ahead hdigits hsome hfits
    rw [hvalue, hback] at hread
    rw [siblingChars_ahead (by omega)]
    exact hread
  · have hback : -Int32.ofNat offset.toInt.natAbs = offset := by
      apply Int32.toInt_inj.mp
      rw [toInt_neg_distance hlt]
      omega
    have hread := SiblingText.back hdigits hsome hfits
    rw [hvalue, hback] at hread
    rw [siblingChars_back (by omega)]
    exact hread

theorem SiblingText.written {cs : List Char} {offset : Int32} (h : SiblingText cs offset) :
    SiblingText (siblingChars offset) offset := by
  cases h with
  | next => exact .next
  | previous => exact .previous
  | ahead _ hpos hlt =>
    have hint := Int32.toInt_ofNat_of_lt hlt
    exact siblingText_chars (by omega) (by omega)
  | back _ hpos hlt =>
    have hint := toInt_neg_distance hlt
    exact siblingText_chars (by omega) (by omega)

theorem SiblingText.plain {cs : List Char} {offset : Int32} (h : SiblingText cs offset) :
    Plain cs := by
  cases h with
  | next => exact plain_sign (by simp)
  | previous => exact plain_sign (by simp)
  | ahead hd =>
    have hsign : Plain ['>'] := plain_sign (by simp)
    exact hsign.cons ((plain_of_isDigits hd).append hsign)
  | back hd =>
    have hsign : Plain ['<'] := plain_sign (by simp)
    exact hsign.cons ((plain_of_isDigits hd).append hsign)

theorem SiblingText.ne_nil {cs : List Char} {offset : Int32} (h : SiblingText cs offset) :
    cs ≠ [] := by
  cases h <;> simp

theorem TagText.chars_eq {cs : List Char} {tag : Option TagTest} (h : TagText cs tag) :
    (tag.map TagTest.chars).getD [] = cs := by
  cases h with
  | absent => rfl
  | any => rfl
  | named => exact String.toList_ofList

theorem NameText.selectorChars_eq {cs : List Char} {identity : Option String}
    {key : Option KeyTest} (h : NameText cs identity key) (step : Step) :
    { step with identity, key }.selectorChars =
      step.mode.marker ++ siblingChars step.sibling ++ (step.tag.map TagTest.chars).getD [] ++
        cs := by
  cases h with
  | absent => rfl
  | identity => simp [Step.selectorChars]
  | key => simp [Step.selectorChars]

/-- Only the distance of a sibling step is written anew. -/
theorem SelectorText.eq_or_sibling {cs : List Char} {step : Step} (h : SelectorText cs step) :
    step.selectorChars = cs ∨ ∃ s n offset identity key, SiblingText s offset ∧
      NameText n identity key ∧ cs = s ++ n ∧ step.selectorChars = siblingChars offset ++ n ∧
      step = { sibling := offset, identity, key } := by
  cases h with
  | @node mode t n tag identity key ht hn =>
    left
    rw [hn.selectorChars_eq { mode, tag }, ht.chars_eq]
    simp [siblingChars]
  | @sibling s n offset identity key hs hn =>
    refine Or.inr ⟨s, n, offset, identity, key, hs, hn, rfl, ?_, rfl⟩
    rw [hn.selectorChars_eq { sibling := offset }]
    simp [Mode.marker]

theorem SelectorText.written {cs : List Char} {step : Step} (h : SelectorText cs step) :
    SelectorText step.selectorChars step := by
  obtain heq | ⟨s, n, offset, identity, key, hs, hn, -, heq, hstep⟩ := h.eq_or_sibling
  · rw [heq]
    exact h
  · rw [heq, hstep]
    exact .sibling hs.written hn

theorem SelectorText.plain_written {cs : List Char} {step : Step} (h : SelectorText cs step)
    (hplain : Plain cs) : Plain step.selectorChars := by
  obtain heq | ⟨s, n, offset, identity, key, hs, hn, hcs, heq, -⟩ := h.eq_or_sibling
  · rw [heq]
    exact hplain
  · rw [hcs] at hplain
    rw [heq]
    exact hs.written.plain.append hplain.right

theorem SelectorText.written_ne_nil {cs : List Char} {step : Step} (h : SelectorText cs step)
    (hne : cs ≠ []) : step.selectorChars ≠ [] := by
  obtain heq | ⟨s, n, offset, identity, key, hs, hn, -, heq, -⟩ := h.eq_or_sibling
  · rw [heq]
    exact hne
  · rw [heq]
    exact List.append_ne_nil_of_left_ne_nil hs.written.ne_nil n

theorem SelectorText.unfiltered {cs : List Char} {step : Step} (h : SelectorText cs step) :
    step.filters = [] ∧ step.childIndex = none := by
  cases h with
  | node => exact ⟨rfl, rfl⟩
  | sibling => exact ⟨rfl, rfl⟩

end SceneSelect.Path
