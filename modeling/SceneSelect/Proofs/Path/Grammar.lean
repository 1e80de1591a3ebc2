import Mathlib.Data.List.Forall2
import SceneSelect.Path.Parser
import SceneSelect.Path.Printer

/-!
# `Proofs/Path/Grammar.lean` — which texts are paths, and what they say

The grammar of paths as relations between texts and what they stand for, with no reader in sight.
A cut is described by its pieces: a text is cut at *every* slash outside brackets exactly when it is
its pieces with slashes between them and no piece holds such a slash; the inside of a group is cut
at *every* join exactly when it is its bodies with joins between them and no body holds a join.

From the bottom up: positions, filters (`FilterText`), groups (`Joined`, `Compatible`), selectors
(`SelectorText`), segments (`SegmentText`), paths (`PathText`). A relation holds of a text in at most
one way; that is not shown here but falls out of the agreement with the reader.
-/

set_option autoImplicit false

namespace SceneSelect.Path

open Text

/-! ## Positions and filters -/

/-- A decimal that fits a signed 64-bit word, or `last()` with a distance of at most 2^63 - 1. -/
inductive PositionText : List Char → Position → Prop where
  | number {ds : List Char} (hd : Numeral.isDigits ds = true)
      (hlt : Numeral.ofDigits ds < Numeral.signed64) :
      PositionText ds (.nth (Int64.ofInt (Numeral.ofDigits ds)))
  | negative {ds : List Char} (hd : Numeral.isDigits ds = true)
      (hle : Numeral.ofDigits ds ≤ Numeral.signed64) :
      PositionText ('-' :: ds) (.nth (Int64.ofInt (-Numeral.ofDigits ds)))
  | last : PositionText "last()".toList (.last 0)
  | beforeLast {ds : List Char} (hd : Numeral.isDigits ds = true)
      (hlt : Numeral.ofDigits ds < Numeral.signed64) :
      PositionText ("last()-".toList ++ ds) (.last (-Int64.ofNat (Numeral.ofDigits ds)))

/-- A name and the test behind it: no operator begins inside the name, so the test begins at the
leftmost one. -/
structure NamedText (cs name : List Char) (test : ValueTest) : Prop where
  split : cs = name ++ test.chars
  named : name ≠ []
  leftmost : ∀ before behind : List Char, name = before ++ behind → behind ≠ [] →
    ∀ other : ValueTest, behind ++ test.chars ≠ other.chars

/-- A filter as it stands between its brackets. -/
inductive FilterText : List Char → Filter → Prop where
  | index {cs : List Char} {p : Position} (hp : PositionText cs p) : FilterText cs (.index p)
  | childIndex {cs : List Char} {p : Position} (hp : PositionText cs p) :
      FilterText (':' :: cs) (.childIndex p)
  | text (test : ValueTest) : FilterText ("text".toList ++ test.chars) (.text test)
  | attr {cs name : List Char} {test : ValueTest} (hn : NamedText cs name test) :
      FilterText ('@' :: cs) (.attribute (String.ofList name) test)
  | data {cs name : List Char} {test : ValueTest} (hn : NamedText cs name test) :
      FilterText ('$' :: cs) (.data (String.ofList name) test)

/-! ## Groups -/

/-- The word of a join: `and` in any letter case. -/
def IsAnd (word : List Char) : Prop := word.map Char.toLower = "and".toList

instance : DecidablePred IsAnd :=
  fun word => inferInstanceAs (Decidable (word.map Char.toLower = "and".toList))

/-- No `]`, letters, `[` anywhere in the text. -/
def JoinFree (cs : List Char) : Prop :=
  ∀ before word behind : List Char, cs = before ++ ']' :: (word ++ '[' :: behind) →
    ∃ c ∈ word, c.isAlpha = false

/-- The bodies are what is left of the text when it is cut at every join, and all joins say `and`. -/
inductive Joined : List (List Char) → List Char → Prop where
  | one {body : List Char} (hb : JoinFree body) : Joined [body] body
  | cons {body word inside : List Char} {bodies : List (List Char)} (hb : JoinFree body)
      (hw : IsAnd word) (hr : Joined bodies inside) :
      Joined (body :: bodies) (body ++ ']' :: (word ++ '[' :: inside))

/-- Which filters may stand together on a step that goes `sibling` places. -/
structure Compatible (sibling : Int32) (filters : List Filter) : Prop where
  indexAlone : ∀ f ∈ filters, f.isIndex = true → filters.length = 1
  oneChildIndex : (filters.filterMap Filter.childIndex?).length ≤ 1
  noSiblingIndex : sibling ≠ 0 → filters.filterMap Filter.childIndex? = []

/-- The step with the filters of a group, the child index kept apart from the others. -/
def Step.withFilters (s : Step) (filters : List Filter) : Step :=
  { s with
    filters := filters.filter fun f => f.childIndex?.isNone
    childIndex := (filters.filterMap Filter.childIndex?).head? }

/-! ## Selectors -/

inductive TagText : List Char → Option TagTest → Prop where
  | absent : TagText [] none
  | any : TagText ['*'] (some .any)
  | named {cs : List Char} (hne : cs ≠ []) (h : ∀ c ∈ cs, isTagChar c = true) :
      TagText cs (some (.named (String.ofList cs)))

/-- A sibling step: a direction alone, or a distance from 1 to 2^31 - 1 between two of its signs. -/
inductive SiblingText : List Char → Int32 → Prop where
  | next : SiblingText ['>'] 1
  | previous : SiblingText ['<'] (-1)
  | ahead {ds : List Char} (hd : Numeral.isDigits ds = true) (hpos : 0 < Numeral.ofDigits ds)
      (hlt : Numeral.ofDigits ds < Numeral.signed32) :
      SiblingText ('>' :: (ds ++ ['>'])) (Int32.ofNat (Numeral.ofDigits ds))
  | back {ds : List Char} (hd : Numeral.isDigits ds = true) (hpos : 0 < Numeral.ofDigits ds)
      (hlt : Numeral.ofDigits ds < Numeral.signed32) :
      SiblingText ('<' :: (ds ++ ['<'])) (-Int32.ofNat (Numeral.ofDigits ds))

inductive NameText : List Char → Option String → Option KeyTest → Prop where
  | absent : NameText [] none none
  | identity {cs : List Char} (hne : cs ≠ []) : NameText ('.' :: cs) (some (String.ofList cs)) none
  | key {cs : List Char} (hne : cs ≠ []) : NameText ('#' :: cs) none (some ⟨String.ofList cs⟩)

/-- The part of a segment before its group. Only a step that goes to no sibling takes a mode or a
tag. -/
inductive SelectorText : List Char → Step → Prop where
  | node {mode : Mode} {t n : List Char} {tag : Option TagTest} {identity : Option String}
      {key : Option KeyTest} (ht : TagText t tag) (hn : NameText n identity key) :
      SelectorText (mode.marker ++ t ++ n) { mode, tag, identity, key }
  | sibling {s n : List Char} {offset : Int32} {identity : Option String} {key : Option KeyTest}
      (hs : SiblingText s offset) (hn : NameText n identity key) :
      SelectorText (s ++ n) { sibling := offset, identity, key }

/-! ## Segments and paths -/

/-- A segment: what stands before its first `[` is a selector, and the rest, if there is any, ends in
`]` and encloses filters. -/
inductive SegmentText : List Char → Step → Prop where
  | bare {selector : List Char} {step : Step} (hopen : '[' ∉ selector)
      (hs : SelectorText selector step) : SegmentText selector step
  | filtered {selector inside : List Char} {step : Step} {bodies : List (List Char)}
      {filters : List Filter} (hopen : '[' ∉ selector) (hs : SelectorText selector step)
      (hj : Joined bodies inside) (hne : ∀ b ∈ bodies, b ≠ [])
      (hf : List.Forall₂ FilterText bodies filters) (hc : Compatible step.sibling filters) :
      SegmentText (selector ++ '[' :: (inside ++ [']'])) (step.withFilters filters)

/-- No bracket closes outside all brackets, and none stays open. -/
structure Balanced (cs : List Char) : Prop where
  closed_le : ∀ before : List Char, before <+: cs → before.count ']' ≤ before.count '['
  closed_eq : cs.count ']' = cs.count '['

/-- Every slash stands inside brackets. -/
def SlashesEnclosed (cs : List Char) : Prop :=
  ∀ before behind : List Char, cs = before ++ '/' :: behind → before.count ']' < before.count '['

/-- The brackets of a path are balanced, and between the slashes outside them stand segments, none
of which is empty. -/
def PathText (cs : List Char) (steps : List Step) : Prop :=
  Balanced cs ∧ ∃ segments : List (List Char), segments ≠ [] ∧ cs = ['/'].intercalate segments ∧
    List.Forall₂ (fun segment step =>
      segment ≠ [] ∧ Balanced segment ∧ SlashesEnclosed segment ∧ SegmentText segment step)
      segments steps

/-- Is the text a path? -/
def IsPath (cs : List Char) : Prop := ∃ steps : List Step, PathText cs steps

end SceneSelect.Path
