import SceneSelect.Text.Search

/-!
# `Path/Key.lean` — key tests with wildcards

A key test is a text in which `*` stands for any run of characters. It is anchored at the start of
the key only: the chunk before the first `*` must begin the key, the further chunks must follow one
another in order, and whatever comes behind the last chunk is free. Each chunk is looked for at its
leftmost place, which never loses a match, since what is left of the key is then as long as it can
be. A test without `*` asks for the key itself.
-/

set_option autoImplicit false

namespace SceneSelect.Path

/-- A test on the key of a node, kept as it was written. -/
structure KeyTest where
  raw : String
deriving DecidableEq, Repr, Inhabited

namespace KeyTest

/-- Does the test hold a wildcard? -/
def isWild (t : KeyTest) : Bool := t.raw.toList.contains '*'

/-- The literal chunks between the wildcards; one more than there are wildcards. -/
def chunks (t : KeyTest) : List (List Char) := t.raw.toList.splitOn '*'

/-- Do the chunks follow one another in the text, each behind the one before? -/
def inOrder : List (List Char) → List Char → Bool
  | [], _ => true
  | chunk :: rest, text =>
    match Text.behind? chunk text with
    | some left => inOrder rest left
    | none => false

/-- Does the test accept this key? -/
def accepts (t : KeyTest) (key : String) : Bool :=
  if t.isWild then
    match t.chunks with
    | [] => true
    | first :: rest =>
      first.isPrefixOf key.toList && inOrder rest (key.toList.drop first.length)
  else key == t.raw

end KeyTest

end SceneSelect.Path
