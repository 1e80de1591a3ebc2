import SceneSelect.Proofs.Path.Recognition
import SceneSelect.Proofs.Path.Written

/-!
# `Proofs/Path/Bracketed.lean` — brackets in the value of a filter

Two cuts go over the brackets of a value. The cut into segments counts them, and a value that is
balanced in itself is nothing to it. The cut into filter bodies does not count: it takes every `]` with
letters and a `[` behind it for a join, however deep the two stand. So

> **a balanced value stays whole exactly if no such join stands in it** (`parse_bracketed_value`): one
> group in brackets does, nested ones do, two of them with nothing or with letters between them do not.

Where the letters are not `and`, the text is refused at the first join. `adjacent_groups_refused` is the
smallest case of that.
-/

set_option autoImplicit false

namespace SceneSelect.Path

open Text

/-! ## A step with one group -/

/-- A text that is one segment is read as one step. -/
theorem readPath_of_segment {cs : List Char} (hne : cs ≠ []) (hdepth : through 0 cs = some 0) :
    readPath cs = (readSegment ⟨cs, 0⟩).map fun step => [step] := by
  have hspans : segments cs = .ok [⟨cs, 0⟩] := by
    refine segments_eq_ok_iff.mpr ⟨[cs], by simp, by simp, ?_, rfl⟩
    intro p hp
    obtain rfl := List.mem_singleton.mp hp
    exact ⟨hne, hdepth⟩
  rw [readPath, hspans]
  show [(⟨cs, 0⟩ : Span)].mapM readSegment = _
  rw [List.mapM_cons, List.mapM_nil]
  cases readSegment ⟨cs, 0⟩ <;> rfl

/-- The group of a step with the tag `x`, which is all of the step that is left to read. -/
theorem readPath_tagged {inside : List Char} (h : through 1 inside = some 1) :
    readPath ('x' :: '[' :: (inside ++ [']'])) =
      (readGroup { tag := some (.named "x") } ⟨'[' :: (inside ++ [']']), 1⟩).map fun step => [step] := by
  have hdepth : through 0 ('x' :: '[' :: (inside ++ [']'])) = some 0 := by
    show through 1 (inside ++ [']']) = some 0
    rw [through_append, h]
    rfl
  have hselector : readSelector ⟨['x'], 0⟩ = .ok { tag := some (.named "x") } := by decide +kernel
  have hopen : '[' ∉ ['x'] := by simp
  have hgroup : cutGroup ⟨'x' :: '[' :: (inside ++ [']']), 0⟩ =
      .ok (⟨['x'], 0⟩, some ⟨'[' :: (inside ++ [']']), 1⟩) := cutGroup_group hopen 0
  rw [readPath_of_segment (by simp) hdepth, readSegment, hgroup]
  dsimp only [bind, Except.bind]
  rw [hselector]

/-! ## A group with one body -/

/-- A group is read as one filter exactly if no join stands in it. -/
theorem readGroup_alone {step : Step} {inside : List Char} {o : Nat} {f : Filter}
    (hf : f.childIndex? = none) (hstep : step.childIndex = none) :
    readGroup step ⟨'[' :: (inside ++ [']']), o⟩ = .ok { step with filters := [f] } ↔
      JoinFree inside ∧ FilterText inside f := by
  rw [readGroup_eq_ok_iff]
  constructor
  · intro ⟨bodies, filters, hj, _, hall, _, hresult⟩
    have hkept : [f] = filters.filter fun f => f.childIndex?.isNone :=
      congrArg Step.filters hresult
    have hchild : step.childIndex = (filters.filterMap Filter.childIndex?).head? :=
      congrArg Step.childIndex hresult
    -- no filter of the group is a child index, so all of them are kept
    rw [hstep, eq_comm, List.head?_eq_none_iff, List.filterMap_eq_nil_iff] at hchild
    rw [List.filter_eq_self.mpr fun f hmem => by simp [hchild f hmem]] at hkept
    subst hkept
    cases hall with
    | cons htext hrest =>
      cases hrest
      cases hj with
      | one hb => exact ⟨hb, htext⟩
      | cons _ _ hr => exact absurd rfl hr.ne_nil
  · intro ⟨hfree, htext⟩
    refine ⟨[inside], [f], .one hfree, ?_, .cons htext .nil, ⟨?_, ?_, ?_⟩, ?_⟩
    · simpa using htext.ne_nil
    · simp
    · simp [hf]
    · simp [hf]
    · simp [Step.withFilters, hf, hstep]

/-- A group is refused at its first join if the word of it is not `and`. -/
theorem readGroup_of_join {front word : List Char} (hfront : JoinFree front)
    (hword : ∀ c ∈ word, c.isAlpha = true) (hand : ¬IsAnd word) (step : Step) (behind : List Char)
    (o : Nat) :
    readGroup step ⟨'[' :: (front ++ ']' :: (word ++ '[' :: behind) ++ [']']), o⟩ =
      .error ⟨if isWord "or" word then .orJoin else .unknownJoin word, o + 1 + utf8Len front⟩ := by
  have hjoin := joinAt?_eq_some_iff.mpr
    (show ']' :: (word ++ '[' :: behind) = _ ∧ _ from ⟨rfl, hword⟩)
  have hcut : cutJoins (o + 1) (front ++ ']' :: (word ++ '[' :: behind)) =
      .error ⟨if isWord "or" word then .orJoin else .unknownJoin word, o + 1 + utf8Len front⟩ := by
    rw [cutJoins_append hfront (by simp), cutJoins_of_join hjoin, if_neg (mt isWord_and_iff.mp hand)]
    split <;> rfl
  rw [readGroup, filterBodies, inside_group, hcut]
  rfl

/-! ## Values -/

/-- The text of a text filter in front of its value. -/
theorem plain_textOperator (c : Comparison) : Plain ("text".toList ++ c.operator) := by
  intro x hx
  cases c <;>
    · simp only [Comparison.operator, String.reduceToList, List.cons_append, List.nil_append,
        List.mem_cons, List.not_mem_nil, or_false] at hx
      rcases hx with rfl | rfl | rfl | rfl | rfl | rfl <;> simp

theorem close_not_mem_textOperator (c : Comparison) : ']' ∉ "text".toList ++ c.operator :=
  fun hmem => (plain_textOperator c ']' hmem).2.1 rfl

/-- To the cut into segments a balanced value is nothing but the inside of its group. -/
theorem parse_textGroup (test : ValueTest) (h : Balanced test.value.toList) :
    parse ("x[text" ++ String.ofList test.comparison.operator ++ test.value ++ "]") =
      (readGroup { tag := some (.named "x") }
        ⟨'[' :: ("text".toList ++ test.comparison.operator ++ test.value.toList ++ [']']), 1⟩).map
          fun step => [step] := by
  have hdepth : through 1 ("text".toList ++ test.comparison.operator ++ test.value.toList) =
      some 1 := by
    rw [through_append, through_plain (plain_textOperator test.comparison)]
    exact h.through Nat.one_pos
  rw [← readPath_tagged hdepth, parse]
  simp

/-- **A balanced value is read as it stands exactly if it holds no join.** At its first join the text is
refused, unless the word is `and`, which ends the value there. -/
theorem parse_bracketed_value (test : ValueTest) (h : Balanced test.value.toList) :
    (parse ("x[text" ++ String.ofList test.comparison.operator ++ test.value ++ "]") =
        .ok [{ tag := some (.named "x"), filters := [.text test] }] ↔
      JoinFree test.value.toList) ∧
    ∀ front word behind : List Char, test.value.toList = front ++ ']' :: (word ++ '[' :: behind) →
      JoinFree front → (∀ c ∈ word, c.isAlpha = true) → ¬IsAnd word →
      parse ("x[text" ++ String.ofList test.comparison.operator ++ test.value ++ "]") =
        .error ⟨if isWord "or" word then .orJoin else .unknownJoin word,
          6 + utf8Len test.comparison.operator + utf8Len front⟩ := by
  have hclose := close_not_mem_textOperator test.comparison
  rw [parse_textGroup test h]
  constructor
  · rw [map_eq_ok_iff]
    constructor
    · intro ⟨step, hstep, hsteps⟩
      obtain rfl := (List.cons.inj hsteps).1
      obtain ⟨hfree, -⟩ := (readGroup_alone rfl rfl).mp hstep
      exact hfree.right
    · intro hfree
      have htext := FilterText.text test
      rw [ValueTest.chars, ← List.append_assoc] at htext
      exact ⟨_, (readGroup_alone rfl rfl).mpr ⟨hfree.append hclose, htext⟩, rfl⟩
  · intro front word behind hvalue hfront hword hand
    have hlen : utf8Len "text".toList = 4 := by decide
    rw [hvalue, ← List.append_assoc, readGroup_of_join (hfront.append hclose) hword hand,
      utf8Len_append, utf8Len_append, hlen, Except.map]
    congr 2
    omega

/-- Nested groups stay in the value, with the slash between them; two groups with a word between them are
refused at the end of the first. -/
theorem parse_bracketed_value_nested :
    (Balanced "a[b[c]/d]e".toList ∧
      parse "x[text=a[b[c]/d]e]" =
        .ok [{ tag := some (.named "x"), filters := [.text ⟨.equal, "a[b[c]/d]e"⟩] }]) ∧
      Balanced "[a]Or[b]".toList ∧ parse "x[text^=[a]Or[b]]" = .error ⟨.orJoin, 10⟩ := by
  have hnested : Balanced "a[b[c]/d]e".toList := (through_zero_iff.mp (by decide)).1
  have hgroups : Balanced "[a]Or[b]".toList := (through_zero_iff.mp (by decide)).1
  have hword : "Or".toList.all Char.isAlpha = true := by decide
  have hwhole : cutJoins 0 "a[b[c]/d]e".toList = .ok ["a[b[c]/d]e".toList] := by decide +kernel
  have hfree : JoinFree "a[b[c]/d]e".toList :=
    (cutJoins_eq_ok_iff.mp hwhole).joinFree _ List.mem_cons_self
  refine ⟨⟨hnested, ?_⟩, hgroups, ?_⟩
  · exact (parse_bracketed_value ⟨.equal, "a[b[c]/d]e"⟩ hnested).1.mpr hfree
  · exact (parse_bracketed_value ⟨.endsWith, "[a]Or[b]"⟩ hgroups).2 "[a".toList "Or".toList "b]".toList
      rfl (joinFree_of_not_mem (by decide)) (List.all_eq_true.mp hword) (by decide)

/-- Two groups side by side are balanced, and the value that they make is not read. -/
theorem adjacent_groups_refused :
    Balanced "[a][b]".toList ∧ parse "x[text=[a][b]]" = .error ⟨.unknownJoin [], 9⟩ :=
  ⟨(through_zero_iff.mp (by decide)).1, by decide +kernel⟩

end SceneSelect.Path
