/-!
# `Json/Value.lean` — JSON values

Objects keep the order of their members, so an object is a list of pairs. Numbers come in two
classes that never compare equal: whole numbers written without fraction or exponent, and doubles.
-/

set_option autoImplicit false

namespace SceneSelect.Json

/-- A number: a whole one, or a double. -/
inductive Number where
  | int (n : Int)
  | double (x : Float)

/-- A JSON value; the members of an object keep their order. -/
inductive Value where
  | null
  | bool (b : Bool)
  | num (n : Number)
  | str (s : String)
  | arr (items : List Value)
  | obj (members : List (String × Value))
deriving Inhabited

/-- The members of an object, in order. -/
abbrev Members := List (String × Value)

namespace Members

/-- The value under a name. -/
def get? (ms : Members) (name : String) : Option Value := ms.lookup name

/-- Puts a value under a name: in the place of the one that stands there, else at the end. -/
def put (ms : Members) (name : String) (value : Value) : Members :=
  match ms with
  | [] => [(name, value)]
  | m :: rest => if m.1 = name then (name, value) :: rest else m :: put rest name value

/-- Puts values under names one after the other. -/
def putAll (ms added : Members) : Members := added.foldl (fun ms m => ms.put m.1 m.2) ms

theorem get?_cons (key name : String) (value : Value) (ms : Members) :
    get? ((key, value) :: ms) name = if name = key then some value else get? ms name := by
  by_cases h : name = key
  · simp [get?, h]
  · have hb : (name == key) = false := by simp [h]
    simp only [get?, List.lookup_cons, hb, if_neg h]

theorem get?_put (ms : Members) (name other : String) (value : Value) :
    (ms.put name value).get? other = if other = name then some value else ms.get? other := by
  induction ms with
  | nil => exact get?_cons name other value []
  | cons m rest ih =>
    obtain ⟨key, v⟩ := m
    simp only [put]
    split
    case isTrue hk =>
      rw [get?_cons, get?_cons, hk]
      split <;> rfl
    case isFalse hk =>
      rw [get?_cons, get?_cons, ih]
      split
      case isTrue ho => rw [if_neg fun h => hk (ho.symm.trans h)]
      case isFalse => rfl

end Members

namespace Value

/-- A whole number as a value. -/
def ofNat (n : Nat) : Value := .num (.int n)

/-- `null` for nothing. -/
def ofOption {α : Type} (write : α → Value) : Option α → Value
  | none => .null
  | some a => write a

/-- A text, or `null` for none. -/
def ofText? (s : Option String) : Value := ofOption .str s

end Value

end SceneSelect.Json
