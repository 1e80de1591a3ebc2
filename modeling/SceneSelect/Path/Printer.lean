import SceneSelect.Path.Basic

/-!
# `Path/Printer.lean` — the text of a path

Writes a step as mode or sibling marker, tag, identity or key, and its filters joined by `]AND[`,
the child index last; writes a path as its steps between slashes. Everything is written as a list
of characters and packed into a string at the end.
-/

set_option autoImplicit false

namespace SceneSelect.Path

/-- The marker that a step of this mode begins with. -/
def Mode.marker : Mode → List Char
  | .exact => []
  | .any => ['~']
  | .ancestor => ['^']

/-- The operator that a comparison is written with. -/
def Comparison.operator : Comparison → List Char
  | .equal => ['=']
  | .startsWith => ['*', '=']
  | .endsWith => ['^', '=']
  | .contains => ['~']

/-- The operator and the literal. -/
def ValueTest.chars (t : ValueTest) : List Char := t.comparison.operator ++ t.value.toList

/-- A place counted from an end is a number; one relative to the last item is written `last()` with
the distance behind it. -/
def Position.chars : Position → List Char
  | .nth n => Text.Numeral.ofInt n.toInt
  | .last offset =>
    if offset = 0 then "last()".toList
    else "last()-".toList ++ Text.Numeral.digits offset.toInt.natAbs

/-- A filter without its brackets. -/
def Filter.chars : Filter → List Char
  | .index p => p.chars
  | .childIndex p => ':' :: p.chars
  | .text test => "text".toList ++ test.chars
  | .attribute name test => '@' :: (name.toList ++ test.chars)
  | .data name test => '$' :: (name.toList ++ test.chars)

/-- A sibling step: the direction, with the distance between two of its signs unless it is one. -/
def siblingChars (offset : Int32) : List Char :=
  if offset = 0 then []
  else if offset = 1 then ['>']
  else if offset = -1 then ['<']
  else if 0 < offset then '>' :: (Text.Numeral.digits offset.toInt.natAbs ++ ['>'])
  else '<' :: (Text.Numeral.digits offset.toInt.natAbs ++ ['<'])

/-- The tag as written in a step. -/
def TagTest.chars : TagTest → List Char
  | .any => ['*']
  | .named tag => tag.toList

namespace Step

/-- The part of a step before its filters. -/
def selectorChars (s : Step) : List Char :=
  s.mode.marker ++ siblingChars s.sibling ++ (s.tag.map TagTest.chars).getD [] ++
    match s.identity, s.key with
    | some identity, _ => '.' :: identity.toList
    | none, some key => '#' :: key.raw.toList
    | none, none => []

/-- The filters of a step as written between the brackets, the child index last. -/
def bodies (s : Step) : List (List Char) :=
  s.filters.map Filter.chars ++ (s.childIndex.map fun p => (Filter.childIndex p).chars).toList

/-- The brackets of a step; none for a step without filters. -/
def groupChars (bodies : List (List Char)) : List Char :=
  if bodies.isEmpty then [] else '[' :: ("]AND[".toList.intercalate bodies ++ [']'])

/-- A step as characters. -/
def chars (s : Step) : List Char := s.selectorChars ++ groupChars s.bodies

/-- A step as text. -/
def text (s : Step) : String := String.ofList s.chars

end Step

/-- A filter as text, without its brackets. -/
def Filter.render (f : Filter) : String := String.ofList f.chars

/-- A position as text. -/
def Position.render (p : Position) : String := String.ofList p.chars

/-- A path as characters. -/
def chars (steps : List Step) : List Char := ['/'].intercalate (steps.map Step.chars)

/-- A path as text. -/
def render (steps : List Step) : String := String.ofList (chars steps)

end SceneSelect.Path
