import SceneSelect.Json.Printer
import SceneSelect.Path.Key

/-!
# `Path/Basic.lean` — what a path says

A path is a list of steps. A step names how far to look (`Mode`) or which sibling to go to, tests
the tag and the identity or key of a node, and may carry filters. Filters on text, attributes and
data compare a value with a literal (`ValueTest`); index filters pick from a list of matches
(`Position`).

Positions are 64-bit and sibling offsets 32-bit signed integers, which is what a path can write.
-/

set_option autoImplicit false

namespace SceneSelect.Path

/-- How far, and in which direction, a step looks. -/
inductive Mode where
  /-- the children, looking through untagged wrappers -/
  | exact
  /-- the whole subtree -/
  | any
  /-- the parent, or the nearest ancestor that passes -/
  | ancestor
deriving DecidableEq, Repr, Inhabited

/-- A test on the tag of a node. -/
inductive TagTest where
  /-- any node that has a tag -/
  | any
  | named (tag : String)
deriving DecidableEq, Repr

/-- A node without a tag passes no test. -/
def TagTest.accepts : TagTest → Option String → Bool
  | _, none => false
  | .any, some _ => true
  | .named wanted, some tag => wanted == tag

/-! ## Comparing values -/

/-- How a value is compared with a literal. -/
inductive Comparison where
  | equal
  | startsWith
  | endsWith
  | contains
deriving DecidableEq, Repr

/-- A comparison with the literal it is made against. -/
structure ValueTest where
  comparison : Comparison
  value : String
deriving DecidableEq, Repr

namespace ValueTest

/-- All comparisons but `contains` are tied to an end of the text. -/
def isAnchored (t : ValueTest) : Bool := t.comparison != .contains

/-- Does a text pass? -/
def accepts (t : ValueTest) (text : String) : Bool :=
  match t.comparison with
  | .equal => text == t.value
  | .startsWith => t.value.toList.isPrefixOf text.toList
  | .endsWith => t.value.toList.isSuffixOf text.toList
  | .contains => Text.occursIn t.value.toList text.toList

/-- A value is compared through its text: a string is its own, the others have their JSON text. -/
def acceptsValue (t : ValueTest) (value : Json.Value) : Bool := t.accepts value.comparable

end ValueTest

/-! ## Positions in a list of matches -/

/-- A place in a list: counted from the start, from the end when negative, or relative to the last
item. -/
inductive Position where
  | nth (n : Int64)
  | last (offset : Int64)
deriving DecidableEq, Repr

namespace Position

/-- The index that the position names in a list of `len` items, if there is an item at it. -/
def index? (p : Position) (len : Nat) : Option Nat :=
  if len < Text.Numeral.signed64 then
    let size := Int64.ofNat len
    let index :=
      match p with
      | .nth n => if 0 ≤ n then n else size + n
      | .last offset => size - 1 + offset
    if 0 ≤ index ∧ index < size then some index.toInt.toNat else none
  else none

/-- The item at the position, as a list of at most one. -/
def pick {α : Type} (p : Position) (items : List α) : List α :=
  match p.index? items.length with
  | some i => items[i]?.toList
  | none => []

end Position

/-! ## Filters and steps -/

/-- What a step asks of a node beyond its tag, identity and key. -/
inductive Filter where
  /-- picks from all matches of the step -/
  | index (p : Position)
  /-- picks from the matches below each node the step starts from -/
  | childIndex (p : Position)
  /-- a text leaf right below, or below untagged wrappers -/
  | text (test : ValueTest)
  | attribute (name : String) (test : ValueTest)
  | data (name : String) (test : ValueTest)
deriving DecidableEq, Repr

/-- The position of a child-index filter. -/
def Filter.childIndex? : Filter → Option Position
  | .childIndex p => some p
  | _ => none

/-- Is this a bare index filter? -/
def Filter.isIndex : Filter → Bool
  | .index _ => true
  | _ => false

/-- One step of a path. -/
structure Step where
  mode : Mode := .exact
  tag : Option TagTest := none
  identity : Option String := none
  key : Option KeyTest := none
  /-- how many places to go among the siblings; zero for a step that does not -/
  sibling : Int32 := 0
  /-- the filters in the order written, child-index filters not among them when read from text -/
  filters : List Filter := []
  childIndex : Option Position := none
deriving DecidableEq, Repr, Inhabited

namespace Step

/-- Does the step name a tag, an identity or a key? -/
def isSelective (s : Step) : Bool := s.tag.isSome || s.identity.isSome || s.key.isSome

/-- Does the step name a key with wildcards? -/
def keyIsWild (s : Step) : Bool := s.key.any KeyTest.isWild

/-- The position of a step whose only filter is a bare index. -/
def soleIndex? (s : Step) : Option Position :=
  match s.filters with
  | [.index p] => some p
  | _ => none

/-- The child-index positions of a step, wherever they stand. -/
def childIndices (s : Step) : List Position :=
  s.filters.filterMap Filter.childIndex? ++ s.childIndex.toList

end Step

end SceneSelect.Path
