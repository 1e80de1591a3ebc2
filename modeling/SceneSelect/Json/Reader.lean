import SceneSelect.Json.Value
import SceneSelect.Text.Numeral

/-!
# `Json/Reader.lean` — reading JSON text

A recursive-descent reader over the characters of a text. A literal without fraction and exponent
is a whole number when it fits 64 bits, unsigned if it is not negative and signed if it is. Every
other number, `-0` among them, is a double: the number that its digits make, times a power of ten,
both rounded to doubles before they are combined. It is the nearest double whenever both are exact,
and a double close to that one otherwise.
-/

set_option autoImplicit false

namespace SceneSelect.Json

/-- The text behind the white space that JSON allows between tokens. -/
def skipSpace (cs : List Char) : List Char :=
  cs.dropWhile fun c => c == ' ' || c == '\n' || c == '\r' || c == '\t'

/-! ## Strings -/

/-- The value of a hexadecimal digit. -/
def hexValue? (c : Char) : Option Nat :=
  if c.isDigit then some (c.toNat - '0'.toNat)
  else if 'a' ≤ c ∧ c ≤ 'f' then some (c.toNat - 'a'.toNat + 10)
  else if 'A' ≤ c ∧ c ≤ 'F' then some (c.toNat - 'A'.toNat + 10)
  else none

/-- The 16-bit unit that four hexadecimal digits stand for. -/
def unit? (a b c d : Char) : Option Nat := do
  let a ← hexValue? a
  let b ← hexValue? b
  let c ← hexValue? c
  let d ← hexValue? d
  pure (((a * 16 + b) * 16 + c) * 16 + d)

/-- The character that an escape letter stands for. -/
def unescape? : Char → Option Char
  | '\x22' => some '\x22'
  | '\x5c' => some '\x5c'
  | '/' => some '/'
  | 'b' => some '\x08'
  | 'f' => some '\x0c'
  | 'n' => some '\x0a'
  | 'r' => some '\x0d'
  | 't' => some '\x09'
  | _ => none

/-- The character of a 16-bit unit; half of a pair that stands alone is U+FFFD. -/
def charOfUnit (u : Nat) : Char := if 0xD800 ≤ u ∧ u < 0xE000 then '\uFFFD' else Char.ofNat u

/-- The character of a pair of units, if they are a high and a low half. -/
def charOfPair? (high low : Nat) : Option Char :=
  if 0xD800 ≤ high ∧ high < 0xDC00 ∧ 0xDC00 ≤ low ∧ low < 0xE000 then
    some (Char.ofNat (0x10000 + (high - 0xD800) * 0x400 + (low - 0xDC00)))
  else none

/-- Reads the inside of a string up to and including the closing quote; `done` holds what was read
so far, last character first. -/
def readString (done : List Char) : List Char → Option (String × List Char)
  | [] => none
  | '\x22' :: rest => some (String.ofList done.reverse, rest)
  | '\x5c' :: 'u' :: a :: b :: c :: d :: '\x5c' :: 'u' :: e :: f :: g :: h :: rest =>
    match unit? a b c d, unit? e f g h with
    | some high, some low =>
      match charOfPair? high low with
      | some ch => readString (ch :: done) rest
      | none => readString (charOfUnit high :: done) ('\x5c' :: 'u' :: e :: f :: g :: h :: rest)
    | some high, none =>
      readString (charOfUnit high :: done) ('\x5c' :: 'u' :: e :: f :: g :: h :: rest)
    | none, _ => none
  | '\x5c' :: 'u' :: a :: b :: c :: d :: rest =>
    match unit? a b c d with
    | some u => readString (charOfUnit u :: done) rest
    | none => none
  | '\x5c' :: c :: rest =>
    match unescape? c with
    | some ch => readString (ch :: done) rest
    | none => none
  | c :: rest => if c.toNat < 0x20 then none else readString (c :: done) rest
termination_by cs => cs.length

/-! ## Numbers -/

/-- The parts of a number literal. -/
structure Literal where
  negative : Bool
  whole : List Char
  fraction : Option (List Char)
  power : Option Int

/-- Reads an exponent behind its letter. -/
def readPower (cs : List Char) : Option (Int × List Char) :=
  let signed := match cs with
    | '-' :: rest => (true, rest)
    | '+' :: rest => (false, rest)
    | rest => (false, rest)
  let ds := signed.2.takeWhile Char.isDigit
  if ds.isEmpty then none
  else
    let n : Int := Text.Numeral.ofDigits ds
    some (if signed.1 then -n else n, signed.2.dropWhile Char.isDigit)

/-- Reads a fraction, if a point comes next. -/
def readFraction : List Char → Option (Option (List Char) × List Char)
  | '.' :: rest =>
    let ds := rest.takeWhile Char.isDigit
    if ds.isEmpty then none else some (some ds, rest.dropWhile Char.isDigit)
  | rest => some (none, rest)

/-- Reads a number literal. -/
def readLiteral (cs : List Char) : Option (Literal × List Char) := do
  let negative := cs.head? == some '-'
  let cs := Text.Numeral.dropSign '-' cs
  let whole := cs.takeWhile Char.isDigit
  if whole.isEmpty || (whole.head? == some '0' && decide (1 < whole.length)) then none
  let (fraction, cs) ← readFraction (cs.dropWhile Char.isDigit)
  match cs with
  | c :: rest =>
    if c == 'e' || c == 'E' then
      let (power, rest) ← readPower rest
      pure (⟨negative, whole, fraction, some power⟩, rest)
    else pure (⟨negative, whole, fraction, none⟩, cs)
  | [] => pure (⟨negative, whole, fraction, none⟩, [])

/-- Takes up digits behind those that made `n`, as many as keep the number within 64 bits, and
answers with the digits left over as well. -/
def takeUp (n : Nat) : List Char → Nat × List Char
  | [] => (n, [])
  | c :: rest =>
    let more := Nat.ofDigitChars 10 [c] n
    if more < Text.Numeral.unsigned64 then takeUp more rest else (n, c :: rest)

/-- The greatest power of ten that is a finite double. -/
def greatestPower : Nat := 308

/-- The double nearest to a power of ten. -/
def tenTo (power : Nat) : Float := Float.ofScientific 1 false power

/-- The double for `n * 10 ^ power`, where `n` is below `2 ^ 64`. A power too small to divide by at
once is divided by in two steps; past those nothing is left of any `n`. -/
def scaled (n : Nat) (power : Int) : Float :=
  let x := (UInt64.ofNat n).toFloat
  let places := power.natAbs
  if n = 0 then 0.0
  else if 0 ≤ power then if places ≤ greatestPower then x * tenTo places else 1.0 / 0.0
  else if places ≤ greatestPower then x / tenTo places
  else if places ≤ 2 * greatestPower then
    x / tenTo greatestPower / tenTo (places - greatestPower)
  else 0.0

/-- The double for a literal without its sign. Of the digits before the point, those that do not fit
64 bits count as places only; of those behind it, they do not count. -/
def Literal.magnitude (l : Literal) : Float :=
  let fraction := l.fraction.getD []
  let (n, uncounted) := takeUp 0 l.whole
  let (n, dropped) := takeUp n fraction
  scaled n (l.power.getD 0 + uncounted.length + dropped.length - fraction.length)

/-- The number that a literal stands for; none if it is too large for a double. -/
def Literal.number? (l : Literal) : Option Number :=
  let n := Text.Numeral.ofDigits l.whole
  if l.fraction.isNone && l.power.isNone && !l.negative && decide (n < Text.Numeral.unsigned64) then
    some (.int n)
  else if l.fraction.isNone && l.power.isNone && l.negative && decide (0 < n ∧ n ≤ Text.Numeral.signed64) then
    some (.int (-n))
  else
    let x := l.magnitude
    if x.isFinite then some (.double (if l.negative then -x else x)) else none

/-! ## Values -/

/-- The text behind a given word at its start. -/
def afterWord? (word : String) (cs : List Char) : Option (List Char) :=
  if word.toList.isPrefixOf cs then some (cs.drop word.length) else none

mutual

/-- Reads one value; `fuel` bounds how many further readers may be entered. -/
def readValue : Nat → List Char → Option (Value × List Char)
  | 0, _ => none
  | fuel + 1, cs =>
    match skipSpace cs with
    | '\x22' :: rest => (readString [] rest).map fun (s, rest) => (.str s, rest)
    | '[' :: rest =>
      match skipSpace rest with
      | ']' :: rest => some (.arr [], rest)
      | rest => (readItems fuel rest).map fun (items, rest) => (.arr items, rest)
    | '\x7b' :: rest =>
      match skipSpace rest with
      | '\x7d' :: rest => some (.obj [], rest)
      | rest => (readMembers fuel rest).map fun (members, rest) => (.obj members, rest)
    | 'n' :: rest => (afterWord? "ull" rest).map fun rest => (.null, rest)
    | 't' :: rest => (afterWord? "rue" rest).map fun rest => (.bool true, rest)
    | 'f' :: rest => (afterWord? "alse" rest).map fun rest => (.bool false, rest)
    | cs => do
      let (literal, rest) ← readLiteral cs
      let n ← literal.number?
      pure (.num n, rest)

/-- Reads the items of an array up to its end. -/
def readItems : Nat → List Char → Option (List Value × List Char)
  | 0, _ => none
  | fuel + 1, cs => do
    let (item, cs) ← readValue fuel cs
    match skipSpace cs with
    | ',' :: cs =>
      let (items, cs) ← readItems fuel cs
      pure (item :: items, cs)
    | ']' :: cs => pure ([item], cs)
    | _ => none

/-- Reads the members of an object up to its end. -/
def readMembers : Nat → List Char → Option (List (String × Value) × List Char)
  | 0, _ => none
  | fuel + 1, cs =>
    match skipSpace cs with
    | '\x22' :: cs => do
      let (name, cs) ← readString [] cs
      match skipSpace cs with
      | ':' :: cs =>
        let (value, cs) ← readValue fuel cs
        match skipSpace cs with
        | ',' :: cs =>
          let (members, cs) ← readMembers fuel cs
          pure ((name, value) :: members, cs)
        | '\x7d' :: cs => pure ([(name, value)], cs)
        | _ => none
      | _ => none
    | _ => none

end

/-- Reads a text that holds one value and nothing else. Every reader entered has consumed a
character of its own or is about to, so twice the length is fuel enough. -/
def read? (text : String) : Option Value :=
  let cs := text.toList
  match readValue (2 * cs.length + 2) cs with
  | some (value, rest) => if (skipSpace rest).isEmpty then some value else none
  | none => none

end SceneSelect.Json
