import SceneSelect.Text.Numeral

/-!
# `Proofs/Checked.lean` — computations that stop before they go wrong

A sum of machine numbers that does not fit wraps around, and a position inside a character cuts a text in
two halves that are none. A checked computation does neither, it stops with a `Trap`. So a computation
that is checked at every such step and never stops has gone through none of them: each of its results is
what it is meant to be.
-/

set_option autoImplicit false

namespace SceneSelect

/-- Why a checked computation stops. -/
inductive Trap where
  /-- a number that its type does not hold -/
  | overflow
  /-- a position behind the end of a text, or a piece that ends before it begins -/
  | outOfRange
  /-- a position between two bytes of one character -/
  | insideCharacter
deriving DecidableEq, Repr

/-- The outcome of a checked computation. -/
abbrev Checked (α : Type) := Except Trap α

namespace Checked

open Text

/-- The integers that a signed word of 64 bits holds. -/
def Fits64 (n : Int) : Prop := -(Numeral.signed64 : Int) ≤ n ∧ n < Numeral.signed64

instance (n : Int) : Decidable (Fits64 n) := inferInstanceAs (Decidable (_ ∧ _))

/-- A difference of natural numbers, which must not be negative. -/
def sub (a b : Nat) : Checked Nat := if b ≤ a then .ok (a - b) else .error .overflow

def add64 (a b : Int64) : Checked Int64 :=
  if Fits64 (a.toInt + b.toInt) then .ok (a + b) else .error .overflow

def sub64 (a b : Int64) : Checked Int64 :=
  if Fits64 (a.toInt - b.toInt) then .ok (a - b) else .error .overflow

/-- The least number of a signed word has no opposite in it. -/
def neg64 (a : Int64) : Checked Int64 := if a = Int64.minValue then .error .overflow else .ok (-a)

def neg32 (a : Int32) : Checked Int32 := if a = Int32.minValue then .error .overflow else .ok (-a)

/-- The number behind a number of 32 bits, unless that was the largest. -/
def next32 (n : UInt32) : Checked UInt32 :=
  if n.toNat + 1 < UInt32.size then .ok (n + 1) else .error .overflow

/-- A number up to the largest that there is room for. -/
def upTo (largest n : Nat) : Checked Nat := if n ≤ largest then .ok n else .error .overflow

theorem sub_of_le {a b : Nat} (h : b ≤ a) : sub a b = .ok (a - b) := if_pos h

theorem add64_of_fits {a b : Int64} (h : Fits64 (a.toInt + b.toInt)) : add64 a b = .ok (a + b) :=
  if_pos h

theorem sub64_of_fits {a b : Int64} (h : Fits64 (a.toInt - b.toInt)) : sub64 a b = .ok (a - b) :=
  if_pos h

theorem neg64_ofNat {n : Nat} (h : n < Numeral.signed64) :
    neg64 (Int64.ofNat n) = .ok (-Int64.ofNat n) := by
  refine if_neg fun heq => ?_
  have hint := congrArg Int64.toInt heq
  rw [Int64.toInt_ofNat_of_lt h, Int64.toInt_minValue] at hint
  omega

theorem neg32_ofNat {n : Nat} (h : n < Numeral.signed32) :
    neg32 (Int32.ofNat n) = .ok (-Int32.ofNat n) := by
  refine if_neg fun heq => ?_
  have hint := congrArg Int32.toInt heq
  rw [Int32.toInt_ofNat_of_lt h, Int32.toInt_minValue] at hint
  omega

/-- Counting on is checked once, at the largest number. -/
theorem next32_ofNat {n : Nat} (h : n < UInt32.size) :
    next32 (UInt32.ofNat n) =
      if n + 1 < UInt32.size then .ok (UInt32.ofNat (n + 1)) else .error .overflow := by
  rw [next32, UInt32.toNat_ofNat_of_lt' h, UInt32.ofNat_add]
  rfl

end Checked

end SceneSelect
