/-!
# `Text/Span.lean` — pieces of a text with their place in it

A span is a run of characters together with the number of UTF-8 bytes that stand before it, so that
a fault found inside a piece can be reported at its place in the whole. Positions are counted in
bytes and never by indexing: every span made here is cut off another one, character by character,
which is why a position always falls between two characters.
-/

set_option autoImplicit false

namespace SceneSelect.Text

/-- The number of bytes a text takes in UTF-8. -/
def utf8Len : List Char → Nat
  | [] => 0
  | c :: cs => c.utf8Size + utf8Len cs

@[simp] theorem utf8Len_nil : utf8Len [] = 0 := rfl

@[simp] theorem utf8Len_cons (c : Char) (cs : List Char) :
    utf8Len (c :: cs) = c.utf8Size + utf8Len cs := rfl

@[simp] theorem utf8Len_append (a b : List Char) : utf8Len (a ++ b) = utf8Len a + utf8Len b := by
  induction a with
  | nil => simp
  | cons c cs ih => simp [ih, Nat.add_assoc]

theorem utf8Len_toList (text : String) : utf8Len text.toList = text.utf8ByteSize := by
  rw [← String.ofList_toList (s := text), String.toList_ofList]
  induction text.toList with
  | nil => rfl
  | cons c cs ih =>
    rw [String.ofList_cons, String.utf8ByteSize_append, String.utf8ByteSize_singleton, utf8Len_cons,
      ih]

/-- A run of characters, and the number of bytes before it in the text it was cut from. -/
structure Span where
  chars : List Char
  offset : Nat
deriving DecidableEq, Repr

namespace Span

/-- A whole text. -/
def ofText (cs : List Char) : Span := ⟨cs, 0⟩

/-- The byte position at which the span ends. -/
def stop (s : Span) : Nat := s.offset + utf8Len s.chars

def isEmpty (s : Span) : Bool := s.chars.isEmpty

/-- The span behind its first `n` characters. -/
def drop (n : Nat) (s : Span) : Span :=
  ⟨s.chars.drop n, s.offset + utf8Len (s.chars.take n)⟩

/-- The span without its last character. -/
def dropLast (s : Span) : Span := ⟨s.chars.dropLast, s.offset⟩

/-- The longest run at the start whose characters satisfy `p`, and what follows it. -/
def splitWhile (p : Char → Bool) (s : Span) : Span × Span :=
  (⟨s.chars.takeWhile p, s.offset⟩,
   ⟨s.chars.dropWhile p, s.offset + utf8Len (s.chars.takeWhile p)⟩)

/-- Lays pieces of text out in order, the first at `offset`, each `gap` bytes behind the end of
the one before. -/
def layOut (gap : Nat) : Nat → List (List Char) → List Span
  | _, [] => []
  | offset, piece :: rest => ⟨piece, offset⟩ :: layOut gap (offset + utf8Len piece + gap) rest

/-- The span stands in `whole` at its offset. -/
def Within (s : Span) (whole : List Char) : Prop :=
  ∃ before behind, whole = before ++ s.chars ++ behind ∧ s.offset = utf8Len before

@[simp] theorem map_chars_layOut (gap offset : Nat) (pieces : List (List Char)) :
    (layOut gap offset pieces).map chars = pieces := by
  induction pieces generalizing offset with
  | nil => rfl
  | cons piece rest ih => simp [layOut, ih]

end Span

end SceneSelect.Text
