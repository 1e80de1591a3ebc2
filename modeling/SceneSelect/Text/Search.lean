/-!
# `Text/Search.lean` — finding one text in another

Texts are lists of characters. The search is the plain one: try every place from the left. What it
answers with is the text behind the leftmost occurrence, which is what a caller goes on with. Every
answer stands behind an occurrence (`behind?_sound`), and no occurrence leaves more of the text than
the one that is found (`behind?_longest`); `occursIn_iff` puts the two together.
-/

set_option autoImplicit false

namespace SceneSelect.Text

/-- The text behind the leftmost occurrence of `needle`. -/
def behind? (needle : List Char) : List Char → Option (List Char)
  | [] => if needle.isEmpty then some [] else none
  | c :: rest =>
    if needle.isPrefixOf (c :: rest) then some ((c :: rest).drop needle.length)
    else behind? needle rest

/-- Does `needle` occur in the text? -/
def occursIn (needle text : List Char) : Bool := (behind? needle text).isSome

theorem behind?_at_start {needle text : List Char} (h : needle <+: text) :
    behind? needle text = some (text.drop needle.length) := by
  cases text with
  | nil => simp [behind?, List.prefix_nil.mp h]
  | cons c rest => simp [behind?, h]

/-- What the search answers with stands behind an occurrence. -/
theorem behind?_sound {needle text left : List Char} (h : behind? needle text = some left) :
    ∃ gap, text = gap ++ needle ++ left := by
  induction text with
  | nil =>
    simp only [behind?, List.isEmpty_iff, Option.ite_none_right_eq_some, Option.some.injEq] at h
    obtain ⟨rfl, rfl⟩ := h
    exact ⟨[], rfl⟩
  | cons c rest ih =>
    rw [behind?] at h
    split at h
    · rename_i hprefix
      obtain ⟨behind, hbehind⟩ := List.isPrefixOf_iff_prefix.mp hprefix
      rw [← hbehind, List.drop_left] at h
      exact ⟨[], by rw [← Option.some.inj h, List.nil_append, hbehind]⟩
    · obtain ⟨gap, hgap⟩ := ih h
      exact ⟨c :: gap, by rw [hgap]; rfl⟩

/-- What stands behind some occurrence is an end of what the search answers with. -/
theorem behind?_longest (gap needle behind : List Char) :
    ∃ left, behind? needle (gap ++ needle ++ behind) = some left ∧ behind <:+ left := by
  induction gap with
  | nil =>
    have hprefix : needle <+: needle ++ behind := List.prefix_append needle behind
    exact ⟨behind, by simp [behind?_at_start hprefix], List.suffix_rfl⟩
  | cons c gap ih =>
    by_cases hprefix : needle <+: c :: gap ++ needle ++ behind
    · refine ⟨_, behind?_at_start hprefix, ?_⟩
      -- the occurrence at the start ends before the other one does
      have hends : needle.length ≤ (c :: gap ++ needle).length := by
        rw [List.length_append]
        exact Nat.le_add_left ..
      rw [List.drop_append_of_le_length hends]
      exact List.suffix_append _ behind
    · obtain ⟨left, hleft, hsuffix⟩ := ih
      refine ⟨left, ?_, hsuffix⟩
      rw [← hleft]
      exact if_neg (mt List.isPrefixOf_iff_prefix.mp hprefix)

/-- Occurring is being a run of neighbouring characters of the text. -/
theorem occursIn_iff {needle text : List Char} : occursIn needle text = true ↔ needle <:+: text := by
  unfold occursIn
  constructor
  · intro h
    obtain ⟨left, hleft⟩ := Option.isSome_iff_exists.mp h
    obtain ⟨gap, hgap⟩ := behind?_sound hleft
    exact ⟨gap, left, hgap.symm⟩
  · intro ⟨gap, behind, htext⟩
    obtain ⟨left, hleft, -⟩ := behind?_longest gap needle behind
    rw [← htext, hleft]
    rfl

end SceneSelect.Text
