import SceneSelect.Decimal.Shortest
import SceneSelect.Json.Value

/-!
# `Json/Printer.lean` — the text of a JSON value

One text per value: no spaces, members in their order. In strings only the quote, the backslash and
the characters below U+0020 are escaped, the latter by a letter where there is one and by four
lower-case hexadecimal digits otherwise.
-/

set_option autoImplicit false

namespace SceneSelect.Json

/-- Doubles from 0.00001 up to but not including 10^16 are written out with at least one digit
behind the point; the others have an exponent with its sign. -/
def numberLayout : Decimal.Layout := ⟨-5, 15⟩

/-- A lower-case hexadecimal digit. -/
def hexDigit (n : Nat) : Char := (Nat.digitChar (n % 16))

/-- A character inside a quoted string. -/
def escape (c : Char) : List Char :=
  match c with
  | '\x22' => ['\x5c', '\x22']
  | '\x5c' => ['\x5c', '\x5c']
  | '\x08' => ['\x5c', 'b']
  | '\x0c' => ['\x5c', 'f']
  | '\x0a' => ['\x5c', 'n']
  | '\x0d' => ['\x5c', 'r']
  | '\x09' => ['\x5c', 't']
  | c =>
    if c.toNat < 0x20 then ['\x5c', 'u', '0', '0', hexDigit (c.toNat / 16), hexDigit c.toNat]
    else [c]

/-- A string in quotes. -/
def quote (s : String) : String :=
  String.ofList ('\x22' :: (s.toList.flatMap escape ++ ['\x22']))

/-- The text of a number. A double that is not finite has no JSON form and is written `null`. -/
def Number.text : Number → String
  | .int n => String.ofList (Text.Numeral.ofInt n)
  | .double x =>
    if x.isFinite then String.ofList (numberLayout.writeFloat x) else "null"

mutual

/-- The text of a value. -/
def Value.text : Value → String
  | .null => "null"
  | .bool b => if b then "true" else "false"
  | .num n => n.text
  | .str s => quote s
  | .arr items => "[" ++ ",".intercalate (itemTexts items) ++ "]"
  | .obj members => "\x7b" ++ ",".intercalate (memberTexts members) ++ "\x7d"

/-- The texts of the items of an array. -/
def itemTexts : List Value → List String
  | [] => []
  | item :: rest => item.text :: itemTexts rest

/-- The texts of the members of an object. -/
def memberTexts : List (String × Value) → List String
  | [] => []
  | (name, value) :: rest => (quote name ++ ":" ++ value.text) :: memberTexts rest

end

/-- The text that a value is compared through: a string itself, anything else its JSON text. -/
def Value.comparable : Value → String
  | .str s => s
  | value => value.text

end SceneSelect.Json
