/-!
# `Text/Numeral.lean` — whole numbers as text

Decimal numerals of natural numbers and integers, over lists of characters. Writing uses no sign
for what is not negative and no leading zero; reading takes any number of leading zeros, so the two
meet in one direction only: `ofDigits_digits`.
-/

set_option autoImplicit false

namespace SceneSelect.Text.Numeral

/-- The first number that a signed word of 32 bits does not hold. -/
def signed32 : Nat := 2147483648

/-- The first number that a signed word of 64 bits does not hold. -/
def signed64 : Nat := 9223372036854775808

/-- The first number that an unsigned word of 64 bits does not hold. -/
def unsigned64 : Nat := 18446744073709551616

/-- The decimal digits of `n`, most significant first; `0` has one digit. -/
def digits (n : Nat) : List Char := Nat.toDigits 10 n

/-- The number a list of decimal digits stands for. -/
def ofDigits (ds : List Char) : Nat := Nat.ofDigitChars 10 ds 0

/-- Is this text one or more decimal digits and nothing else? -/
def isDigits (cs : List Char) : Bool := !cs.isEmpty && cs.all Char.isDigit

/-- An integer in decimal, with a minus sign when it is negative. -/
def ofInt (n : Int) : List Char :=
  if n < 0 then '-' :: digits n.natAbs else digits n.natAbs

/-- What is left of a text behind an optional first character. -/
def dropSign (sign : Char) : List Char → List Char
  | c :: cs => if c = sign then cs else c :: cs
  | [] => []

/-- Reads decimal digits behind an optional plus sign, below `bound`. -/
def unsignedBelow? (bound : Nat) (cs : List Char) : Option Nat :=
  let ds := dropSign '+' cs
  if isDigits ds && decide (ofDigits ds < bound) then some (ofDigits ds) else none

theorem isDigits_iff {cs : List Char} :
    isDigits cs = true ↔ cs ≠ [] ∧ ∀ c ∈ cs, c.isDigit = true := by
  simp [isDigits]

theorem ofDigits_digits (n : Nat) : ofDigits (digits n) = n :=
  Nat.ofDigitChars_toDigits (by decide) (by decide)

theorem digits_ne_nil (n : Nat) : digits n ≠ [] := by
  simp [digits]

theorem isDigits_digits (n : Nat) : isDigits (digits n) = true :=
  isDigits_iff.mpr ⟨digits_ne_nil n, fun _ hc =>
    Nat.isDigit_of_mem_toDigits (by decide) (by decide) hc⟩

end SceneSelect.Text.Numeral
