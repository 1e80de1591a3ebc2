import SceneSelect.Path.Basic
import SceneSelect.Path.Cut
import SceneSelect.Text.Alphanumeric

/-!
# `Path/Parser.lean` — reading a path

```text
path     = segment ("/" segment)*
segment  = (mode? tag? | sibling) ("." identity | "#" key)? group?
mode     = "^" | "~"
sibling  = ">" | "<" | ">" digits ">" | "<" digits "<"
tag      = "*" | (letter | number | "_" | "-")+
group    = "[" filter ("]and[" filter)* "]"
filter   = index | ":" index | "text" op value | "@" name op value | "$" name op value
index    = "-"? digits | "last()" ("-" digits)?
op       = "*=" | "^=" | "=" | "~"
```

Segments are read from left to right and the first fault wins; within a segment the selector comes
before the filters. A name ends at the leftmost operator in it.
-/

set_option autoImplicit false

namespace SceneSelect.Path

open Text

/-! ## Selectors -/

/-- The characters of a tag. -/
def isTagChar (c : Char) : Bool := isAlphanumeric c || c == '_' || c == '-'

/-- The mode that a selector begins with. -/
def readMode (s : Span) : Mode × Span :=
  match s.chars with
  | '^' :: _ => (.ancestor, s.drop 1)
  | '~' :: _ => (.any, s.drop 1)
  | _ => (.exact, s)

/-- The offset of a distance in the direction of a sign. -/
def signedOffset (delimiter : Char) (n : Nat) : Int32 :=
  if delimiter = '>' then Int32.ofNat n else -Int32.ofNat n

/-- A sibling offset that began with `delimiter` at position `start`; `s` is what follows it. A
missing closing sign is reported behind the character that stands in its place. -/
def readSibling (delimiter : Char) (start : Nat) (s : Span) : Reading (Int32 × Span) :=
  let (digits, behind) := s.splitWhile Char.isDigit
  if digits.isEmpty then .ok (signedOffset delimiter 1, s)
  else if behind.chars.head? ≠ some delimiter then
    .error ⟨.siblingUnclosed delimiter, (behind.drop 1).offset⟩
  else
    let n := Numeral.ofDigits digits.chars
    if Numeral.signed32 ≤ n then .error ⟨.siblingOutOfRange, start⟩
    else if n = 0 then .error ⟨.siblingZero, start⟩
    else .ok (signedOffset delimiter n, behind.drop 1)

/-- The tag of a selector, if it names one. -/
def readTag (s : Span) : Reading (Option TagTest × Span) :=
  if s.chars.head? = some '*' then
    let behind := s.drop 1
    if behind.chars.head?.any isTagChar then .error ⟨.wildcardTagNotAlone, behind.offset⟩
    else .ok (some .any, behind)
  else
    let (tag, behind) := s.splitWhile isTagChar
    .ok (if tag.isEmpty then none else some (.named (String.ofList tag.chars)), behind)

/-- The tag or the sibling offset of a step, which a mode excludes. -/
def readTarget (mode : Mode) (s : Span) : Reading (Step × Span) :=
  match s.chars with
  | c :: _ =>
    if c = '>' ∨ c = '<' then
      if mode = .exact then do
        let (sibling, behind) ← readSibling c s.offset (s.drop 1)
        pure ({ mode, sibling }, behind)
      else .error ⟨.siblingWithMode, s.offset⟩
    else do
      let (tag, behind) ← readTag s
      pure ({ mode, tag }, behind)
  | [] => .ok ({ mode }, s)

/-- The identity or key at the end of a selector. -/
def readName (step : Step) (s : Span) : Reading Step :=
  match s.chars with
  | [] => .ok step
  | c :: name =>
    if c = '.' then
      if name.isEmpty then .error ⟨.missingIdentity, (s.drop 1).offset⟩
      else .ok { step with identity := some (String.ofList name) }
    else if c = '#' then
      if name.isEmpty then .error ⟨.missingKey, (s.drop 1).offset⟩
      else .ok { step with key := some ⟨String.ofList name⟩ }
    else .error ⟨.unmatchedSymbol c, s.offset⟩

/-- A selector as a step without filters. -/
def readSelector (s : Span) : Reading Step := do
  let (mode, s) := readMode s
  let (step, s) ← readTarget mode s
  readName step s

/-! ## Filters -/

/-- The text behind a given start. -/
def behindStart? (start : List Char) (cs : List Char) : Option (List Char) :=
  if start.isPrefixOf cs then some (cs.drop start.length) else none

/-- The offset behind `last()`: nothing, or a minus sign and digits below 2^63. -/
def readLastOffset? (cs : List Char) : Option Int64 :=
  match cs with
  | [] => some 0
  | c :: digits =>
    if c = '-' ∧ Numeral.isDigits digits ∧ Numeral.ofDigits digits < Numeral.signed64 then
      some (-Int64.ofNat (Numeral.ofDigits digits))
    else none

/-- A signed number that fits 64 bits. -/
def readInt64? (cs : List Char) : Option Int64 :=
  let n := Numeral.ofDigits (Numeral.dropSign '-' cs)
  if cs.head? = some '-' then
    if n ≤ Numeral.signed64 then some (Int64.ofInt (-n)) else none
  else if n < Numeral.signed64 then some (Int64.ofInt n) else none

/-- A position at byte `pos`; nothing if the text does not look like one. -/
def readPosition (pos : Nat) (cs : List Char) : Reading (Option Position) :=
  match behindStart? "last()".toList cs with
  | some rest =>
    match readLastOffset? rest with
    | some offset => .ok (some (.last offset))
    | none => .error ⟨.badLastOffset rest, pos + 6⟩
  | none =>
    if Numeral.isDigits (Numeral.dropSign '-' cs) then
      match readInt64? cs with
      | some n => .ok (some (.nth n))
      | none => .error ⟨.indexOutOfRange cs, pos⟩
    else .ok none

/-- The comparison that the text begins with, with all that follows as its literal. -/
def readTest? (cs : List Char) : Option ValueTest :=
  match cs with
  | '*' :: '=' :: value => some ⟨.startsWith, String.ofList value⟩
  | '^' :: '=' :: value => some ⟨.endsWith, String.ofList value⟩
  | '=' :: value => some ⟨.equal, String.ofList value⟩
  | '~' :: value => some ⟨.contains, String.ofList value⟩
  | _ => none

/-- The text before the leftmost operator, and the test that begins there. -/
def splitTest? : List Char → Option (List Char × ValueTest)
  | [] => none
  | c :: rest =>
    match readTest? (c :: rest) with
    | some test => some ([], test)
    | none => (splitTest? rest).map fun (name, test) => (c :: name, test)

/-- A name and a test at byte `pos`. -/
def readNamed (pos : Nat) (cs : List Char) : Reading (String × ValueTest) :=
  match splitTest? cs with
  | none => .error ⟨.missingOperator cs, pos⟩
  | some ([], _) => .error ⟨.missingName, pos⟩
  | some (name, test) => .ok (String.ofList name, test)

/-- A filter body that is not a position. -/
def readBody (body : Span) : Reading Filter :=
  match body.chars with
  | ':' :: rest => do
    match ← readPosition (body.offset + 1) rest with
    | some p => pure (.childIndex p)
    | none => .error ⟨.badChildIndex body.chars, body.offset⟩
  | '@' :: rest => do
    let (name, test) ← readNamed (body.offset + 1) rest
    pure (.attribute name test)
  | '$' :: rest => do
    let (name, test) ← readNamed (body.offset + 1) rest
    pure (.data name test)
  | cs =>
    match (behindStart? "text".toList cs).bind readTest? with
    | some test => .ok (.text test)
    | none => .error ⟨.unknownFilter cs, body.offset⟩

/-- A filter body. -/
def readFilter (body : Span) : Reading Filter := do
  match ← readPosition body.offset body.chars with
  | some p => pure (.index p)
  | none => readBody body

/-! ## Segments -/

/-- Reads bodies in order: the filters of the step, each with its position, and the child index,
which `found` holds if one was read before. -/
def readBodies (found : Option Position) :
    List Span → Reading (List (Filter × Nat) × Option Position)
  | [] => .ok ([], found)
  | body :: rest => do
    match ← readFilter body with
    | .childIndex p =>
      if found.isSome then .error ⟨.secondChildIndex, body.offset⟩ else readBodies (some p) rest
    | filter =>
      let (filters, childIndex) ← readBodies found rest
      pure ((filter, body.offset) :: filters, childIndex)

/-- A bare index must be the only one of `count` filters; the last one that is not is reported. -/
def indexAlone (count : Nat) (filters : List (Filter × Nat)) : Reading Unit :=
  match (filters.filter fun f => f.1.isIndex).getLast? with
  | some (_, position) => if 1 < count then .error ⟨.indexNotAlone, position⟩ else .ok ()
  | none => .ok ()

/-- A sibling step has no child index; `position` is that of its group. -/
def noSiblingIndex (step : Step) (childIndex : Option Position) (position : Nat) : Reading Unit :=
  if step.sibling ≠ 0 ∧ childIndex.isSome then .error ⟨.childIndexOnSibling, position⟩ else .ok ()

/-- Adds the filters of a group to a step. -/
def readGroup (step : Step) (group : Span) : Reading Step := do
  let bodies ← filterBodies group
  let (filters, childIndex) ← readBodies none bodies
  indexAlone bodies.length filters
  noSiblingIndex step childIndex group.offset
  pure { step with filters := filters.map Prod.fst, childIndex }

/-- Reads a segment. -/
def readSegment (segment : Span) : Reading Step := do
  let (selector, group) ← cutGroup segment
  let step ← readSelector selector
  match group with
  | none => pure step
  | some group => readGroup step group

/-- Reads a path. -/
def readPath (path : List Char) : Reading (List Step) := do
  (← segments path).mapM readSegment

/-- Reads the text of a path as its steps, at least one. -/
def parse (text : String) : Reading (List Step) := readPath text.toList

end SceneSelect.Path
