import SceneSelect.Proofs.Checked
import SceneSelect.Proofs.Path.Position
import SceneSelect.Proofs.Path.RoundTrip
import SceneSelect.Proofs.Path.Writable

/-!
# `Proofs/Path/Resolve.lean` — the sums behind a position

The index that a position names is found with sums of 64 bits. They are exact for every position that a
text can write, and just so: of an empty list the item `2^63 - 1` places before the last one has the least
number there is as its index, `-1 - (2^63 - 1)`. A position that counts on behind the last item could leave
the range, but the reader makes none (`isWritable_of_positionText`).
-/

set_option autoImplicit false

namespace SceneSelect.Path

open Text

/-! ## The index with its sums checked -/

/-- `Position.index?`, stopping at a sum that does not fit. -/
def Position.checkedIndex? (p : Position) (len : Nat) : Checked (Option Nat) :=
  if len < Numeral.signed64 then do
    let size := Int64.ofNat len
    let index ←
      match p with
      | .nth n => if 0 ≤ n then pure n else Checked.add64 size n
      | .last offset => do Checked.add64 (← Checked.sub64 size 1) offset
    pure (if 0 ≤ index ∧ index < size then some index.toInt.toNat else none)
  else pure none

namespace Position

variable {p : Position} {len : Nat}

theorem fits64_size_add (hlen : len < Numeral.signed64) {n : Int64} (hn : ¬0 ≤ n) :
    Checked.Fits64 ((Int64.ofNat len).toInt + n.toInt) := by
  have hmin := n.le_toInt
  rw [Int64.le_iff_toInt_le, Int64.toInt_zero] at hn
  rw [toInt_size hlen, Checked.Fits64]
  rw [Numeral.signed64] at hlen ⊢
  omega

theorem fits64_size_pred (hlen : len < Numeral.signed64) :
    Checked.Fits64 ((Int64.ofNat len).toInt - (1 : Int64).toInt) := by
  rw [toInt_size hlen, Int64.toInt_one, Checked.Fits64]
  omega

theorem fits64_last_add (hlen : len < Numeral.signed64) {offset : Int64}
    (h : (Position.last offset).IsWritable) :
    Checked.Fits64 ((Int64.ofNat len - 1).toInt + offset.toInt) := by
  obtain ⟨hmin, hmax⟩ := h
  rw [toInt_size_pred hlen, Checked.Fits64]
  omega

/-- No sum leaves the range, however long the list is. -/
theorem IsWritable.checkedIndex? (h : p.IsWritable) (len : Nat) :
    p.checkedIndex? len = .ok (p.index? len) := by
  rw [Position.checkedIndex?, index?]
  by_cases hlen : len < Numeral.signed64
  · rw [if_pos hlen, if_pos hlen]
    cases p with
    | nth n =>
      by_cases hn : 0 ≤ n
      · simp only [if_pos hn]
        rfl
      · simp only [if_neg hn]
        rw [Checked.add64_of_fits (fits64_size_add hlen hn)]
        rfl
    | last offset =>
      dsimp only
      rw [Checked.sub64_of_fits (fits64_size_pred hlen)]
      dsimp only [bind, Except.bind]
      rw [Checked.add64_of_fits (fits64_last_add hlen h)]
      rfl
  · rw [if_neg hlen, if_neg hlen]
    rfl

theorem pick_of_index? {α : Type} {items : List α} {i : Nat} (h : p.index? items.length = some i) :
    ∃ hi : i < items.length, p.pick items = [items[i]] := by
  have hi := index?_lt h
  refine ⟨hi, ?_⟩
  simp only [pick, h, List.getElem?_eq_getElem hi]
  rfl

end Position

/-! ## Positions that are read -/

theorem isWritable_of_positionText {cs : List Char} {p : Position} (h : PositionText cs p) :
    p.IsWritable := by
  cases h with
  | number => exact trivial
  | negative => exact trivial
  | last => exact ⟨by decide, by decide⟩
  | @beforeLast ds _ hlt =>
    have hint := toInt_neg_offset hlt
    constructor
    · rw [hint]
      omega
    · rw [hint]
      omega

/-- The position of a filter that has one. -/
theorem FilterText.isWritable {cs : List Char} {f : Filter} {p : Position} (h : FilterText cs f)
    (hf : f = .index p ∨ f = .childIndex p) : p.IsWritable := by
  rcases hf with rfl | rfl
  · cases h with
    | index hp => exact isWritable_of_positionText hp
  · cases h with
    | childIndex hp => exact isWritable_of_positionText hp

theorem SegmentText.isWritable {cs : List Char} {step : Step} {p : Position}
    (h : SegmentText cs step) (hp : Filter.index p ∈ step.filters ∨ step.childIndex = some p) :
    p.IsWritable := by
  cases h with
  | bare _ hs =>
    obtain ⟨hfilters, hindex⟩ := hs.unfiltered
    rw [hfilters, hindex] at hp
    exact absurd hp (by simp)
  | @filtered _ _ step _ filters _ hs _ _ hf _ =>
    -- both kinds of position stand among the filters of the group
    obtain ⟨f, hmem, hposition⟩ : ∃ f ∈ filters, f = .index p ∨ f = .childIndex p := by
      rcases hp with hp | hp
      · exact ⟨_, List.mem_of_mem_filter hp, Or.inl rfl⟩
      · obtain ⟨f, hmem, hf⟩ := List.mem_filterMap.mp (List.mem_of_head? hp)
        exact ⟨f, hmem, Or.inr (childIndex?_eq_some hf)⟩
    have hread : ∀ f ∈ filters, ∃ b, FilterText b f :=
      forall_of_forall₂ hf fun b _ hb => ⟨b, hb⟩
    obtain ⟨b, hb⟩ := hread f hmem
    exact hb.isWritable hposition

/-- **For a position of a path that was read no sum leaves the range, and the index is the place of the
position wherever that lies in the list, so that the list has an item there. A place before the last item
is named by its distance to the last one just as by a negative number.** -/
theorem index_exact_of_parse {text : String} {path : List Step} (hread : parse text = .ok path)
    {step : Step} (hstep : step ∈ path) {p : Position}
    (hp : Filter.index p ∈ step.filters ∨ step.childIndex = some p) :
    (∀ len, p.checkedIndex? len = .ok (p.index? len)) ∧
      (∀ len, len < Numeral.signed64 → ∀ i, p.index? len = some i ↔ p.place len = i ∧ i < len) ∧
      (∀ {α : Type} (items : List α) (i : Nat), p.index? items.length = some i →
        ∃ hi : i < items.length, p.pick items = [items[i]]) ∧
      ∀ n, n < Numeral.signed64 → ∀ len,
        (Position.last (-Int64.ofNat n)).checkedIndex? len =
          (Position.nth (Int64.ofInt (-(n + 1 : Nat)))).checkedIndex? len := by
  obtain ⟨-, segments, -, -, hall⟩ := readPath_eq_ok_iff.mp hread
  have hsegment : ∀ step ∈ path, ∃ cs, SegmentText cs step :=
    forall_of_forall₂ hall fun cs _ ⟨_, _, _, hsegment⟩ => ⟨cs, hsegment⟩
  obtain ⟨cs, hcs⟩ := hsegment step hstep
  refine ⟨(hcs.isWritable hp).checkedIndex?, fun len hlen i => Position.index?_eq_some_iff hlen,
    fun items i => Position.pick_of_index?, ?_⟩
  intro n hn len
  have hint := toInt_neg_offset hn
  have hlast : (Position.last (-Int64.ofNat n)).IsWritable := by
    constructor
    · rw [hint]
      omega
    · rw [hint]
      omega
  have hnth : (Position.nth (Int64.ofInt (-(n + 1 : Nat)))).IsWritable := trivial
  rw [hlast.checkedIndex?, hnth.checkedIndex?, Position.index?_last_neg hn]

/-- The farthest positions that can be written: the first meets the least number in a list without items. -/
theorem index_exact_of_parse_extremes :
    let back : Position := .last (-Int64.ofNat 9223372036854775807)
    let least : Position := .nth Int64.minValue
    let row : Step := { tag := some (.named "row"), childIndex := some back }
    let cell : Step := { tag := some (.named "cell"), filters := [.index least] }
    parse "row[:last()-9223372036854775807]/cell[-9223372036854775808]" = .ok [row, cell] ∧
      back.place 0 = Int64.minValue.toInt ∧
      (∀ len, back.checkedIndex? len = .ok (back.index? len)) ∧
      ∀ len, least.checkedIndex? len = .ok (least.index? len) := by
  intro back least row cell
  have hread : parse "row[:last()-9223372036854775807]/cell[-9223372036854775808]" =
      .ok [row, cell] := by decide +kernel
  refine ⟨hread, by decide, ?_, ?_⟩
  · exact (index_exact_of_parse hread List.mem_cons_self (Or.inr rfl)).1
  · exact (index_exact_of_parse hread (List.mem_cons_of_mem row List.mem_cons_self)
      (Or.inl List.mem_cons_self)).1

end SceneSelect.Path
