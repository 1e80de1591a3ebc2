import SceneSelect.Json.Decode
import SceneSelect.Text.Numeral

/-!
# `Arena/Ref.lean` — references to entries of an arena

A reference is the number of a slot. It is only meaningful for the arena it came from, and only
until the entry is removed, since slots are used again. From outside, slot numbers are taken below
a limit, so that one 32-bit number is left over to stand for no reference.
-/

set_option autoImplicit false

namespace SceneSelect

/-- A reference to a slot of an arena. -/
structure Ref where
  slot : Nat
deriving DecidableEq, Repr, Inhabited

namespace Ref

/-- The first number that is no slot: the largest number of 32 bits. An arena with this many slots, all of
them full, takes no more values; `Arena.insert` has no such case and is to be followed below the limit only. -/
def limit : Nat := 4294967295

/-- Why a reference cannot be used. -/
inductive Fault where
  /-- the number is not below the limit -/
  | tooLarge
  /-- no entry lives there -/
  | unknown
deriving DecidableEq, Repr

/-- The wording of a fault. -/
def Fault.message : Fault → String
  | .tooLarge => "node id must be less than u32::MAX"
  | .unknown => "invalid node id"

/-- The reference to a slot given by its number. -/
def ofNat (n : Nat) : Except Fault Ref :=
  if n < limit then .ok ⟨n⟩ else .error .tooLarge

/-- A reference as text. -/
def text (r : Ref) : String := String.ofList ('#' :: Text.Numeral.digits r.slot)

/-- Reads a reference from its slot number. -/
def ofJson? (v : Json.Value) : Option Ref := (v.natBelow? limit).map Ref.mk

/-- A reference is written as its slot number. -/
def toJson (r : Ref) : Json.Value := Json.Value.ofNat r.slot

end Ref

end SceneSelect
