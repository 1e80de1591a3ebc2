import SceneSelect.Path.Basic

/-!
# `Proofs/Path/Position.lean` — the place that a position names

Positions are computed with in 64-bit numbers, and such a sum may wrap around. It does no harm: a
sum that has left the range at one end comes in so far at the other that it is no place in a list. So
**a position names an item exactly if its place, counted in integers without a limit, lies in the
list** (`index?_eq_some_iff`), and two positions that always have the same place name the same items.
-/

set_option autoImplicit false

namespace SceneSelect.Path.Position

open SceneSelect.Text

variable {p q : Position} {len i : Nat}

/-- The place in a list of `len` items that the position names, counted from its first item. It may
lie before that item or behind the last. -/
def place (p : Position) (len : Nat) : Int :=
  match p with
  | .nth n => if 0 ≤ n.toInt then n.toInt else len + n.toInt
  | .last offset => len - 1 + offset.toInt

/-! ## Sums of 64 bits -/

/-- A sum is exact, or it has left the range at one end and come in at the other. -/
theorem toInt_add_cases (a b : Int64) :
    (a + b).toInt = a.toInt + b.toInt ∨
      (Numeral.signed64 ≤ a.toInt + b.toInt ∧
        (a + b).toInt = a.toInt + b.toInt - Numeral.unsigned64) ∨
      (a.toInt + b.toInt < -Numeral.signed64 ∧
        (a + b).toInt = a.toInt + b.toInt + Numeral.unsigned64) := by
  have ha := a.toInt_lt
  have ha' := a.le_toInt
  have hb := b.toInt_lt
  have hb' := b.le_toInt
  rw [Int64.toInt_add, Int.bmod_def, Numeral.signed64, Numeral.unsigned64]
  omega

theorem toInt_size (hlen : len < Numeral.signed64) : (Int64.ofNat len).toInt = len :=
  Int64.toInt_ofNat_of_lt hlen

theorem toInt_size_pred (hlen : len < Numeral.signed64) :
    (Int64.ofNat len - 1).toInt = (len : Int) - 1 := by
  have hlt : (len : Int) < 2 ^ 63 := by exact_mod_cast hlen
  rw [Int64.toInt_sub, toInt_size hlen, Int64.toInt_one, Int.bmod_def]
  omega

/-! ## Items -/

theorem index?_of_le (h : Numeral.signed64 ≤ len) : p.index? len = none := by
  rw [index?, if_neg (Nat.not_lt.mpr h)]

/-- A position names the item at its place, if there is one. -/
theorem index?_eq_some_iff (hlen : len < Numeral.signed64) :
    p.index? len = some i ↔ p.place len = i ∧ i < len := by
  have hlt : (len : Int) < 2 ^ 63 := by exact_mod_cast hlen
  simp only [index?, if_pos hlen, Option.ite_none_right_eq_some, Option.some.injEq,
    Int64.le_iff_toInt_le, Int64.lt_iff_toInt_lt, toInt_size hlen, Int64.toInt_zero]
  cases p with
  | nth n =>
    have hsum := toInt_add_cases (Int64.ofNat len) n
    have hn := n.le_toInt
    rw [toInt_size hlen, Numeral.signed64, Numeral.unsigned64] at hsum
    simp only [place]
    split
    · omega
    · omega
  | last offset =>
    have hsum := toInt_add_cases (Int64.ofNat len - 1) offset
    have hmin := offset.le_toInt
    have hmax := offset.toInt_lt
    rw [toInt_size_pred hlen, Numeral.signed64, Numeral.unsigned64] at hsum
    simp only [place]
    omega

theorem index?_eq_none_iff (hlen : len < Numeral.signed64) :
    p.index? len = none ↔ p.place len < 0 ∨ len ≤ p.place len := by
  rw [Option.eq_none_iff_forall_ne_some]
  constructor
  · intro h
    by_cases hinside : 0 ≤ p.place len ∧ p.place len < len
    · refine absurd ((index?_eq_some_iff hlen).mpr ?_) (h (p.place len).toNat)
      omega
    · omega
  · intro h i hsome
    obtain ⟨hplace, hi⟩ := (index?_eq_some_iff hlen).mp hsome
    omega

/-- A position names a place inside the list. -/
theorem index?_lt (h : p.index? len = some i) : i < len := by
  by_cases hlen : len < Numeral.signed64
  · exact ((index?_eq_some_iff hlen).mp h).2
  · rw [index?_of_le (Nat.not_lt.mp hlen)] at h
    exact absurd h (by simp)

theorem index?_congr (h : p.place len = q.place len) : p.index? len = q.index? len := by
  by_cases hlen : len < Numeral.signed64
  · refine Option.ext fun i => ?_
    rw [index?_eq_some_iff hlen, index?_eq_some_iff hlen, h]
  · rw [index?_of_le (Nat.not_lt.mp hlen), index?_of_le (Nat.not_lt.mp hlen)]

/-- A place counted from the start. -/
theorem index?_nth (hi : i < Numeral.signed64) (hlen : len < Numeral.signed64) :
    (Position.nth (Int64.ofNat i)).index? len = if i < len then some i else none := by
  refine Option.ext fun j => ?_
  rw [index?_eq_some_iff hlen, place, toInt_size hi, if_pos (Int.natCast_nonneg i)]
  simp only [Option.ite_none_right_eq_some, Option.some.injEq]
  omega

/-- A number names nothing if it counts too far, in either direction. -/
theorem index?_nth_eq_none_iff {n : Int64} (hlen : len < Numeral.signed64) :
    (Position.nth n).index? len = none ↔ (len : Int) ≤ n.toInt ∨ n.toInt < -len := by
  rw [index?_eq_none_iff hlen, place]
  split
  · omega
  · omega

/-- What is `n` places before the last item is also the item `n + 1` places before the end. -/
theorem index?_last_neg {n : Nat} (hn : n < Numeral.signed64) (len : Nat) :
    (Position.last (-Int64.ofNat n)).index? len =
      (Position.nth (Int64.ofInt (-(n + 1 : Nat)))).index? len := by
  have hlt : (n : Int) < 2 ^ 63 := by exact_mod_cast hn
  have hlast : (-Int64.ofNat n).toInt = -(n : Int) :=
    Int64.toInt_neg_ofNat_of_le (Nat.le_of_lt hn)
  have hnth : (Int64.ofInt (-(n + 1 : Nat))).toInt = -(n : Int) - 1 := by
    rw [Int64.toInt_ofInt_of_le (by omega) (by omega)]
    omega
  apply index?_congr
  rw [place, place, hlast, hnth, if_neg (by omega)]
  omega

/-! ## What is picked -/

variable {α : Type}

theorem pick_eq_nil_iff {items : List α} : p.pick items = [] ↔ p.index? items.length = none := by
  rw [pick]
  cases hindex : p.index? items.length with
  | none => simp
  | some i => simp [List.getElem?_eq_getElem (index?_lt hindex)]

theorem pick_nil : p.pick ([] : List α) = [] := by
  rw [pick_eq_nil_iff, List.length_nil, index?_eq_none_iff (by decide)]
  omega

theorem pick_last_neg {n : Nat} (hn : n < Numeral.signed64) :
    (Position.last (-Int64.ofNat n)).pick (α := α) =
      (Position.nth (Int64.ofInt (-(n + 1 : Nat)))).pick := by
  funext items
  simp only [pick, index?_last_neg hn]

theorem pick_sublist (p : Position) (items : List α) : (p.pick items).Sublist items := by
  rw [pick]
  split
  · rename_i i _
    cases hitem : items[i]? with
    | none => exact List.nil_sublist items
    | some item => exact List.singleton_sublist.mpr (List.mem_of_getElem? hitem)
  · exact List.nil_sublist items

theorem length_pick_le (p : Position) (items : List α) : (p.pick items).length ≤ 1 := by
  rw [pick]
  split
  · exact Option.length_toList_le
  · exact Nat.zero_le 1

end SceneSelect.Path.Position
