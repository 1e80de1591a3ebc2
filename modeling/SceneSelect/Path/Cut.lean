import SceneSelect.Path.Fault

/-!
# `Path/Cut.lean` — cutting a path into segments, selectors and filter bodies

A path is cut at the slashes that stand outside all brackets. A segment is cut at its first `[`
into a selector and a group, which must end the segment. The inside of a group is cut at its joins,
`]`, letters, `[`, of which only the word `and` in any letter case is admitted; a bracket that is no
part of a join stays in the filter body.

Each cut comes in two parts: one over plain lists of characters, which says where the pieces end,
and one that lays the pieces out as spans.
-/

set_option autoImplicit false

namespace SceneSelect.Path

open Text

/-! ## Segments -/

/-- The bracket depth behind a character. -/
def depthAfter (c : Char) (depth : Nat) : Nat :=
  if c = '[' then depth + 1 else if c = ']' then depth - 1 else depth

/-- No bracket closes outside all brackets, and none stays open. `pos` is the position of the text
and `opened` that of the last bracket that opened outside all others. -/
def checkBrackets (depth opened pos : Nat) : List Char → Reading Unit
  | [] => if depth = 0 then .ok () else .error ⟨.unclosedOpen, opened⟩
  | c :: rest =>
    if c = ']' ∧ depth = 0 then .error ⟨.unexpectedClose, pos⟩
    else
      checkBrackets (depthAfter c depth) (if c = '[' ∧ depth = 0 then pos else opened)
        (pos + c.utf8Size) rest

/-- The pieces between the slashes outside all brackets. -/
def cutSlashes (depth : Nat) : List Char → List (List Char)
  | [] => [[]]
  | c :: rest =>
    if c = '/' ∧ depth = 0 then [] :: cutSlashes 0 rest
    else (cutSlashes (depthAfter c depth) rest).modifyHead (c :: ·)

/-- Refuses a row of spans with an empty one among them. -/
def noneEmpty (cause : SyntaxCause) (spans : List Span) : Reading (List Span) :=
  match spans.find? Span.isEmpty with
  | some s => .error ⟨cause, s.offset⟩
  | none => .ok spans

/-- The segments of a path. Brackets are checked over the whole path first. -/
def segments (path : List Char) : Reading (List Span) := do
  checkBrackets 0 0 0 path
  noneEmpty .emptySegment (Span.layOut 1 0 (cutSlashes 0 path))

/-! ## Selector and group -/

/-- A segment as its selector and its group, if it has one; the group keeps its outer brackets. -/
def cutGroup (segment : Span) : Reading (Span × Option Span) :=
  let (selector, group) := segment.splitWhile (· != '[')
  if group.isEmpty then .ok (selector, none)
  else if group.chars.getLast? = some ']' then .ok (selector, some group)
  else .error ⟨.textAfterFilters, segment.stop⟩

/-! ## Filter bodies -/

/-- The word of the join that the text begins with, and the text behind the join. -/
def joinAt? : List Char → Option (List Char × List Char)
  | [] => none
  | c :: rest =>
    if c = ']' then
      match rest.dropWhile Char.isAlpha with
      | '[' :: behind => some (rest.takeWhile Char.isAlpha, behind)
      | _ => none
    else none

theorem joinAt?_length {text word behind : List Char} (h : joinAt? text = some (word, behind)) :
    behind.length < text.length := by
  cases text with
  | nil => simp [joinAt?] at h
  | cons c rest =>
    simp only [joinAt?] at h
    split at h
    · split at h
      case h_1 behind' hd =>
        have hle : (rest.dropWhile Char.isAlpha).length ≤ rest.length :=
          (List.dropWhile_sublist _).length_le
        rw [hd] at hle
        simp only [Option.some.injEq, Prod.mk.injEq] at h
        rw [← h.2]
        simp only [List.length_cons] at hle ⊢
        omega
      case h_2 => exact absurd h (by simp)
    · exact absurd h (by simp)

/-- Is the word the given one in some letter case? -/
def isWord (wanted : String) (word : List Char) : Bool := word.map Char.toLower == wanted.toList

/-- The number of bytes that a join of the word `and` takes. -/
def joinLen : Nat := 5

/-- The pieces between the joins; `pos` is the position of the text. -/
def cutJoins (pos : Nat) (text : List Char) : Reading (List (List Char)) :=
  match h : joinAt? text with
  | some (word, behind) =>
    have := joinAt?_length h
    if isWord "and" word then (cutJoins (pos + joinLen) behind).map ([] :: ·)
    else if isWord "or" word then .error ⟨.orJoin, pos⟩
    else .error ⟨.unknownJoin word, pos⟩
  | none =>
    match text with
    | [] => .ok [[]]
    | c :: rest => (cutJoins (pos + c.utf8Size) rest).map (List.modifyHead (c :: ·))
termination_by text.length

/-- The filter bodies of a group. -/
def filterBodies (group : Span) : Reading (List Span) := do
  let inside := (group.drop 1).dropLast
  let pieces ← cutJoins inside.offset inside.chars
  noneEmpty .emptyFilter (Span.layOut joinLen inside.offset pieces)

end SceneSelect.Path
