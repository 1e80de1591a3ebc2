import SceneSelect.Json.Value
import SceneSelect.Text.Numeral

/-!
# `Json/Decode.lean` — reading domain values out of JSON

A record is written as an object of its fields or as an array of them in the order declared. Either
way `record?` answers with a look-up by field name, so that the readers of records need not know
which form they were given. A missing field is told apart from one that holds `null`: what either
of them means is up to the reader of that field.
-/

set_option autoImplicit false

namespace SceneSelect.Json

namespace Value

/-- A string. -/
def string? : Value → Option String
  | .str s => some s
  | _ => none

/-- A truth value. -/
def bool? : Value → Option Bool
  | .bool b => some b
  | _ => none

/-- A whole number. -/
def int? : Value → Option Int
  | .num (.int n) => some n
  | _ => none

/-- A whole number from zero up to but not including `bound`. -/
def natBelow? (bound : Nat) : Value → Option Nat
  | .num (.int n) => if 0 ≤ n ∧ n < bound then some n.toNat else none
  | _ => none

/-- A whole number of 64 bits, unsigned. -/
def uint64? (v : Value) : Option UInt64 := (v.natBelow? Text.Numeral.unsigned64).map UInt64.ofNat

/-- The members of an object. -/
def members? : Value → Option Members
  | .obj members => some members
  | _ => none

/-- The items of an array. -/
def items? : Value → Option (List Value)
  | .arr items => some items
  | _ => none

end Value

/-- What a record does with members it does not declare. -/
inductive Undeclared where
  | refused
  | ignored
deriving DecidableEq

/-- The fields of a record by name, from an object or from an array in the order declared; an array
may stop early but not go on. -/
def record? (names : List String) (undeclared : Undeclared) :
    Value → Option (String → Option Value)
  | .obj members =>
    if undeclared = .refused ∧ members.any fun m => !names.contains m.1 then none
    else some (Members.get? members)
  | .arr items =>
    if items.length ≤ names.length then some fun name => (names.zip items).lookup name else none
  | _ => none

theorem mem_of_lookup_eq_some {α β : Type} [BEq α] [LawfulBEq α] {key : α} {value : β}
    {pairs : List (α × β)} (h : pairs.lookup key = some value) : (key, value) ∈ pairs := by
  induction pairs with
  | nil => simp at h
  | cons p rest ih =>
    obtain ⟨k, v⟩ := p
    rw [List.lookup_cons] at h
    split at h
    case h_1 hk =>
      simp only [Option.some.injEq] at h
      rw [eq_of_beq hk, h]
      exact List.mem_cons_self
    case h_2 => exact List.mem_cons_of_mem _ (ih h)

/-- A field is smaller than the record it was found in. -/
theorem sizeOf_field_lt {names : List String} {undeclared : Undeclared} {v w : Value}
    {field : String → Option Value} {name : String} (h : record? names undeclared v = some field)
    (hw : field name = some w) : sizeOf w < sizeOf v := by
  unfold record? at h
  split at h
  case h_1 members =>
    split at h
    · simp at h
    · simp only [Option.some.injEq] at h
      subst h
      have := List.sizeOf_lt_of_mem (mem_of_lookup_eq_some hw)
      simp only [Prod.mk.sizeOf_spec, Value.obj.sizeOf_spec] at this ⊢
      omega
  case h_2 items =>
    split at h
    · simp only [Option.some.injEq] at h
      subst h
      have := List.sizeOf_lt_of_mem (List.of_mem_zip (mem_of_lookup_eq_some hw)).2
      simp only [Value.arr.sizeOf_spec]
      omega
    · simp at h
  case h_3 => simp at h

/-- A field that has a default when it is missing. -/
def orDefault {α : Type} (default : α) (read : Value → Option α) : Option Value → Option α
  | none => some default
  | some v => read v

/-- A field that may be missing or `null`. -/
def optional? {α : Type} (read : Value → Option α) : Option Value → Option (Option α)
  | none => some none
  | some .null => some none
  | some v => (read v).map some

end SceneSelect.Json
