import SceneSelect.Path.Parser
import SceneSelect.Proofs.Checked
import SceneSelect.Proofs.Text.Slice

/-!
# `Proofs/Path/Indexed.lean` — the reader by byte positions

`parse` takes a text apart character by character and has nothing that could go wrong. Here it works in place,
as a reader without lists does: the text stays whole and only positions move, counted in bytes. Brackets are
met while the characters are counted, joins are looked for byte by byte, and a cursor goes through a
selector. Each piece is cut out by its positions, and each cut, difference and change of sign is checked, so
a reading has three ends: a step, a fault of the text, or a `Trap`.

The functions bear the names of the readers they are the counterparts of. What needs no position, the tests
on a piece that is already cut out, is the reader's own.
-/

set_option autoImplicit false

namespace SceneSelect.Path

open Text

variable {α β : Type}

/-- A reading whose positions and sums are checked. -/
abbrev Attempt (α : Type) := ExceptT SyntaxFault Checked α

/-- A reading in which there is nothing to check. -/
def Attempt.ofReading (r : Reading α) : Attempt α := ExceptT.mk (.ok r)

/-- A check that is passed leaves nothing behind. -/
theorem Attempt.lift_bind {x : Checked α} {a : α} (h : x = .ok a) (f : α → Attempt β) :
    ((liftM x : Attempt α) >>= f) = f a := by
  rw [h]
  rfl

theorem Attempt.ofReading_bind {x : Reading α} {f : α → Attempt β} {g : α → Reading β}
    (h : ∀ a, x = .ok a → f a = Attempt.ofReading (g a)) :
    (Attempt.ofReading x >>= f) = Attempt.ofReading (x >>= g) := by
  cases x with
  | ok a => exact h a rfl
  | error fault => rfl

namespace Indexed

/-- A piece of a span, with its place. -/
def sliceSpan (s : Span) (start stop : Nat) : Checked Span := do
  pure ⟨← slice start stop s.chars, s.offset + start⟩

/-! ## Segments -/

/-- The segments of a path whose characters up to a position have been seen: `depth` brackets are open, the
last one outside all others since `opened`, and a segment began at `start`. -/
def cutSegments (path : List Char) (depth start opened : Nat) (found : List Span) (position : Nat) :
    List Char → Attempt (List Span)
  | [] =>
    if 0 < depth then throw ⟨.unclosedOpen, opened⟩
    else do pure (found ++ [⟨← sliceFrom start path, start⟩])
  | c :: rest =>
    let next := position + c.utf8Size
    if c = '[' then
      cutSegments path (depth + 1) start (if depth = 0 then position else opened) found next rest
    else if c = ']' then
      if depth = 0 then throw ⟨.unexpectedClose, position⟩
      else do cutSegments path (← Checked.sub depth 1) start opened found next rest
    else if c = '/' ∧ depth = 0 then do
      let segment ← slice start position path
      cutSegments path depth (position + 1) opened (found ++ [⟨segment, start⟩]) next rest
    else cutSegments path depth start opened found next rest

/-- Brackets are checked while the segments are cut, empty ones are refused at the end. -/
def segments (path : List Char) : Attempt (List Span) := do
  Attempt.ofReading (noneEmpty .emptySegment (← cutSegments path 0 0 0 [] 0 path))

/-! ## Selector and group -/

/-- The position of the first character of this kind. -/
def find? (wanted : Char) : List Char → Option Nat
  | [] => none
  | c :: cs => if c = wanted then some 0 else (find? wanted cs).map (c.utf8Size + ·)

def cutGroup (segment : Span) : Attempt (Span × Option Span) :=
  match find? '[' segment.chars with
  | none => pure (segment, none)
  | some opened =>
    if segment.chars.getLast? = some ']' then do
      let selector ← sliceSpan segment 0 opened
      let group ← sliceSpan segment opened (utf8Len segment.chars)
      pure (selector, some group)
    else throw ⟨.textAfterFilters, segment.offset + utf8Len segment.chars⟩

/-! ## Filter bodies -/

/-- The join that begins with the byte at the cursor: its word and how many letters that has. -/
def joinAt? (inside : List Char) (cursor : Nat) : Checked (Option (List Char × Nat)) := do
  if (← byteAt cursor (bytes inside)) = byteOf ']' then
    let word := cursor + 1
    let letters := ((← bytesFrom word (bytes inside)).takeWhile isAlphaByte).length
    if (bytes inside)[word + letters]? = some (byteOf '[') then
      pure (some (← slice word (word + letters) inside, letters))
    else pure none
  else pure none

/-- The filter bodies of a group that was seen up to the cursor; a body began at `start`. The cursor goes
from byte to byte, through the middle of characters as well. -/
def cutBodies (inside : Span) (start : Nat) (found : List Span) (cursor : Nat) : Attempt (List Span) :=
  if cursor < (bytes inside.chars).length then do
    match ← joinAt? inside.chars cursor with
    | none => cutBodies inside start found (cursor + 1)
    | some (word, letters) =>
      if isWord "and" word then
        let behind := cursor + 1 + letters + 1
        cutBodies inside behind (found ++ [← sliceSpan inside start cursor]) behind
      else if isWord "or" word then throw ⟨.orJoin, inside.offset + cursor⟩
      else throw ⟨.unknownJoin word, inside.offset + cursor⟩
  else do
    pure (found ++ [← sliceSpan inside start (utf8Len inside.chars)])
termination_by (bytes inside.chars).length - cursor
decreasing_by all_goals omega

def filterBodies (group : Span) : Attempt (List Span) := do
  let inside ← sliceSpan group 1 (← Checked.sub (utf8Len group.chars) 1)
  Attempt.ofReading (noneEmpty .emptyFilter (← cutBodies inside 0 [] 0))

/-! ## The cursor of a selector -/

/-- A position in a span. -/
structure Cursor where
  span : Span
  index : Nat

namespace Cursor

variable (c : Cursor)

/-- The position in the whole text. -/
def position : Nat := c.span.offset + c.index

/-- The cursor, so many bytes further on. -/
def skip (n : Nat) : Cursor := { c with index := c.index + n }

/-- The text behind the cursor. -/
def rest : Checked (List Char) := sliceFrom c.index c.span.chars

def peek : Checked (Option Char) := do
  pure (← c.rest).head?

/-- The character at the cursor, and the cursor behind it. -/
def next : Checked (Option Char × Cursor) := do
  match ← c.peek with
  | none => pure (none, c)
  | some symbol => pure (some symbol, c.skip symbol.utf8Size)

/-- There is less behind the next character. -/
theorem rest_shrinks {c : Cursor} {symbol : Char} {more : List Char}
    (h : c.rest = .ok (symbol :: more)) :
    utf8Len c.span.chars - (c.skip symbol.utf8Size).index < utf8Len c.span.chars - c.index := by
  have hpos := symbol.utf8Size_pos
  obtain ⟨front, hchars, hindex⟩ := sliceFrom_sound h
  simp only [skip, hchars, hindex, utf8Len_append, utf8Len_cons]
  omega

/-- The cursor behind all characters that satisfy `p`. -/
def skipWhile (p : Char → Bool) (c : Cursor) : Checked Cursor :=
  match h : c.rest with
  | .error trap => .error trap
  | .ok [] => .ok c
  | .ok (symbol :: _) =>
    have := rest_shrinks h
    if p symbol then skipWhile p (c.skip symbol.utf8Size) else .ok c
termination_by utf8Len c.span.chars - c.index

/-- The characters at the cursor that satisfy `p`, and the cursor behind them. -/
def takeWhile (p : Char → Bool) : Checked (List Char × Cursor) := do
  let behind ← skipWhile p c
  pure (← slice c.index behind.index c.span.chars, behind)

/-- All that is left, which must be something. -/
def takeRest (missing : SyntaxCause) : Attempt (List Char) := do
  let rest ← c.rest
  if rest.isEmpty then throw ⟨missing, c.position⟩ else pure rest

end Cursor

/-! ## Selectors -/

def readMode (c : Cursor) : Checked (Mode × Cursor) := do
  match ← c.peek with
  | some '^' => pure (.ancestor, c.skip 1)
  | some '~' => pure (.any, c.skip 1)
  | _ => pure (.exact, c)

/-- The digits of a distance as a number, when its closing sign follows. -/
def closeSibling (delimiter : Char) (start : Nat) (digits : List Char) (c : Cursor) :
    Attempt (Int32 × Cursor) := do
  let (closing, c) ← c.next
  if closing ≠ some delimiter then throw ⟨.siblingUnclosed delimiter, c.position⟩
  else if Numeral.signed32 ≤ Numeral.ofDigits digits then throw ⟨.siblingOutOfRange, start⟩
  else pure (Int32.ofNat (Numeral.ofDigits digits), c)

/-- A distance in the direction of a sign. -/
def directed (delimiter : Char) (start : Nat) (magnitude : Int32) : Attempt Int32 :=
  if magnitude = 0 then throw ⟨.siblingZero, start⟩
  else if delimiter = '>' then pure magnitude
  else Checked.neg32 magnitude

def readSibling (c : Cursor) : Attempt (Int32 × Cursor) := do
  match ← c.next with
  | (none, _) => throw ⟨.reported "expected sibling offset", c.position⟩
  | (some delimiter, behind) =>
    let (digits, behind) ← behind.takeWhile Char.isDigit
    let (magnitude, behind) ←
      if digits.isEmpty then pure (1, behind) else closeSibling delimiter c.position digits behind
    pure (← directed delimiter c.position magnitude, behind)

def readTag (c : Cursor) : Attempt (Option TagTest × Cursor) := do
  if (← c.peek) = some '*' then
    let behind := c.skip 1
    if (← behind.peek).any isTagChar then throw ⟨.wildcardTagNotAlone, behind.position⟩
    else pure (some .any, behind)
  else
    let (tag, behind) ← c.takeWhile isTagChar
    pure (if tag.isEmpty then none else some (.named (String.ofList tag)), behind)

def readTarget (mode : Mode) (c : Cursor) : Attempt (Step × Cursor) := do
  let symbol ← c.peek
  if symbol = some '>' ∨ symbol = some '<' then
    if mode = .exact then
      let (sibling, behind) ← readSibling c
      pure ({ mode, sibling }, behind)
    else throw ⟨.siblingWithMode, c.position⟩
  else
    let (tag, behind) ← readTag c
    pure ({ mode, tag }, behind)

def readName (step : Step) (c : Cursor) : Attempt Step := do
  match ← c.next with
  | (none, _) => pure step
  | (some symbol, behind) =>
    if symbol = '.' then
      pure { step with identity := some (String.ofList (← behind.takeRest .missingIdentity)) }
    else if symbol = '#' then
      pure { step with key := some ⟨String.ofList (← behind.takeRest .missingKey)⟩ }
    else throw ⟨.unmatchedSymbol symbol, ← Checked.sub behind.position symbol.utf8Size⟩

def readSelector (s : Span) : Attempt Step := do
  let (mode, c) ← readMode ⟨s, 0⟩
  let (step, c) ← readTarget mode c
  readName step c

/-! ## Filters -/

def readLastOffset? (cs : List Char) : Checked (Option Int64) :=
  match cs with
  | [] => pure (some 0)
  | c :: digits =>
    if c = '-' ∧ Numeral.isDigits digits ∧ Numeral.ofDigits digits < Numeral.signed64 then do
      pure (some (← Checked.neg64 (Int64.ofNat (Numeral.ofDigits digits))))
    else pure none

def readPosition (pos : Nat) (cs : List Char) : Attempt (Option Position) :=
  match behindStart? "last()".toList cs with
  | some rest => do
    match ← readLastOffset? rest with
    | some offset => pure (some (.last offset))
    | none => throw ⟨.badLastOffset rest, pos + 6⟩
  | none => Attempt.ofReading (Path.readPosition pos cs)

/-- The first position from this one on at which a test begins, and the test. -/
def findTest? (cs : List Char) (position : Nat) : List Char → Checked (Option (Nat × ValueTest))
  | [] => pure none
  | c :: rest => do
    match readTest? (← sliceFrom position cs) with
    | some test => pure (some (position, test))
    | none => findTest? cs (position + c.utf8Size) rest

def readNamed (pos : Nat) (cs : List Char) : Attempt (String × ValueTest) := do
  match ← findTest? cs 0 cs with
  | none => throw ⟨.missingOperator cs, pos⟩
  | some (nameEnd, test) =>
    if nameEnd = 0 then throw ⟨.missingName, pos⟩
    else pure (String.ofList (← slice 0 nameEnd cs), test)

def readBody (body : Span) : Attempt Filter :=
  match body.chars with
  | ':' :: rest => do
    match ← readPosition (body.offset + 1) rest with
    | some p => pure (.childIndex p)
    | none => throw ⟨.badChildIndex body.chars, body.offset⟩
  | '@' :: rest => do
    let (name, test) ← readNamed (body.offset + 1) rest
    pure (.attribute name test)
  | '$' :: rest => do
    let (name, test) ← readNamed (body.offset + 1) rest
    pure (.data name test)
  | _ => Attempt.ofReading (Path.readBody body)

def readFilter (body : Span) : Attempt Filter := do
  match ← readPosition body.offset body.chars with
  | some p => pure (.index p)
  | none => readBody body

/-! ## Segments -/

def readBodies (found : Option Position) :
    List Span → Attempt (List (Filter × Nat) × Option Position)
  | [] => pure ([], found)
  | body :: rest => do
    match ← readFilter body with
    | .childIndex p =>
      if found.isSome then throw ⟨.secondChildIndex, body.offset⟩ else readBodies (some p) rest
    | filter =>
      let (filters, childIndex) ← readBodies found rest
      pure ((filter, body.offset) :: filters, childIndex)

def readGroup (step : Step) (group : Span) : Attempt Step := do
  let bodies ← filterBodies group
  let (filters, childIndex) ← readBodies none bodies
  Attempt.ofReading (indexAlone bodies.length filters)
  Attempt.ofReading (noSiblingIndex step childIndex group.offset)
  pure { step with filters := filters.map Prod.fst, childIndex }

def readSegment (segment : Span) : Attempt Step := do
  let (selector, group) ← cutGroup segment
  let step ← readSelector selector
  match group with
  | none => pure step
  | some group => readGroup step group

def readPath (path : List Char) : Attempt (List Step) := do
  (← segments path).mapM readSegment

/-- Reads the text of a path in place. -/
def parse (text : String) : Checked (Reading (List Step)) := (readPath text.toList).run

end Indexed

end SceneSelect.Path
