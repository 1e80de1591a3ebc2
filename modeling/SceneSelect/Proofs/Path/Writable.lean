import SceneSelect.Proofs.Path.Parsed
import SceneSelect.Proofs.Path.RoundTrip

/-!
# `Proofs/Path/Writable.lean` — the steps that can be written

`parse_render_of_parse` begins with a text. Here there is none to begin with, only steps, and the type
of steps holds many that no text says: a tag with a slash in it, a name that ends in the star of the
operator behind it. `Step.IsWritable` rules these out by looking at each part of a step alone, and

> **a path of such steps is read back from what is printed for it** (`parse_render_of_writable`).

So printing loses nothing and runs no two parts together, although the printer puts neither quotes nor
escapes around anything. Numbers are the smaller half of the reason; the larger one is that names, tags
and values keep clear of the characters which end them.
-/

set_option autoImplicit false

namespace SceneSelect.Path

open Text

/-! ## Text between the brackets of a group -/

/-- Text that can stand in a group and leaves its depth as it is, slashes or not. -/
def Unbracketed (cs : List Char) : Prop := '[' ∉ cs ∧ ']' ∉ cs

instance : DecidablePred Unbracketed :=
  fun cs => inferInstanceAs (Decidable ('[' ∉ cs ∧ ']' ∉ cs))

theorem Unbracketed.append {a b : List Char} (ha : Unbracketed a) (hb : Unbracketed b) :
    Unbracketed (a ++ b) := by
  simp only [Unbracketed, List.mem_append, not_or]
  exact ⟨⟨ha.1, hb.1⟩, ⟨ha.2, hb.2⟩⟩

theorem Plain.unbracketed {cs : List Char} (h : Plain cs) : Unbracketed cs :=
  ⟨fun hmem => (h '[' hmem).1 rfl, fun hmem => (h ']' hmem).2.1 rfl⟩

theorem Unbracketed.joinFree {cs : List Char} (h : Unbracketed cs) : JoinFree cs :=
  joinFree_of_not_mem h.2

theorem Unbracketed.balanced {cs : List Char} (h : Unbracketed cs) : Balanced cs := by
  constructor
  · intro before hbefore
    rw [List.count_eq_zero.mpr fun hmem => h.2 (hbefore.subset hmem)]
    exact Nat.zero_le _
  · rw [List.count_eq_zero.mpr h.2, List.count_eq_zero.mpr h.1]

theorem unbracketed_operator (c : Comparison) : Unbracketed c.operator := by
  cases c <;> decide

theorem ValueTest.unbracketed {test : ValueTest} (h : Unbracketed test.value.toList) :
    Unbracketed test.chars :=
  (unbracketed_operator test.comparison).append h

/-! ## Names -/

/-- A name that an operator can stand behind: none begins in it, and none with its last character, as
one would where a plain `=` follows a `*` or `^`. -/
structure NameFits (name : List Char) (c : Comparison) : Prop where
  ne_nil : name ≠ []
  unbracketed : Unbracketed name
  no_equals : '=' ∉ name
  no_tilde : '~' ∉ name
  last_equal : c = .equal → name.getLast? ≠ some '*' ∧ name.getLast? ≠ some '^'

theorem comparison_of_equals {test : ValueTest} {value : List Char}
    (h : test.chars = '=' :: value) : test.comparison = .equal := by
  obtain ⟨comparison, text⟩ := test
  cases comparison with
  | equal => rfl
  | startsWith => exact absurd (List.cons.inj h).1 (by decide)
  | endsWith => exact absurd (List.cons.inj h).1 (by decide)
  | contains => exact absurd (List.cons.inj h).1 (by decide)

/-- An operator of two characters that begins in the name would begin with its last character. -/
theorem last_of_operator {before rest value : List Char} {c : Char} {test : ValueTest}
    (hequals : '=' ∉ before ++ c :: rest) (h : rest ++ test.chars = '=' :: value) :
    test.comparison = .equal ∧ (before ++ c :: rest).getLast? = some c := by
  cases rest with
  | nil => exact ⟨comparison_of_equals h, by simp⟩
  | cons x rest =>
    obtain ⟨rfl, -⟩ := List.cons.inj h
    exact absurd (by simp) hequals

theorem NameFits.namedText {name : List Char} {test : ValueTest} (h : NameFits name test.comparison) :
    NamedText (name ++ test.chars) name test := by
  refine ⟨rfl, h.ne_nil, ?_⟩
  rintro before behind rfl hne other heq
  obtain ⟨c, rest, rfl⟩ := List.exists_cons_of_ne_nil hne
  obtain ⟨comparison, value⟩ := other
  cases comparison with
  | equal =>
    obtain ⟨rfl, -⟩ := List.cons.inj heq
    exact h.no_equals (by simp)
  | contains =>
    obtain ⟨rfl, -⟩ := List.cons.inj heq
    exact h.no_tilde (by simp)
  | startsWith =>
    obtain ⟨rfl, hbehind⟩ := List.cons.inj heq
    obtain ⟨hequal, hlast⟩ := last_of_operator h.no_equals hbehind
    exact (h.last_equal hequal).1 hlast
  | endsWith =>
    obtain ⟨rfl, hbehind⟩ := List.cons.inj heq
    obtain ⟨hequal, hlast⟩ := last_of_operator h.no_equals hbehind
    exact (h.last_equal hequal).2 hlast

/-! ## Filters -/

/-- Behind the last item there is nothing to point at, and the least number has no distance. -/
def Position.IsWritable : Position → Prop
  | .nth _ => True
  | .last offset => -(Numeral.signed64 : Int) < offset.toInt ∧ offset.toInt ≤ 0

/-- A filter whose parts are read back where they stand. -/
def Filter.IsWritable : Filter → Prop
  | .index p => p.IsWritable
  | .childIndex p => p.IsWritable
  | .text test => Unbracketed test.value.toList
  | .attribute name test =>
    NameFits name.toList test.comparison ∧ Unbracketed test.value.toList
  | .data name test => NameFits name.toList test.comparison ∧ Unbracketed test.value.toList

theorem Position.IsWritable.positionText {p : Position} (h : p.IsWritable) :
    PositionText p.chars p := by
  cases p with
  | nth n => exact positionText_nth n
  | last offset => exact positionText_last h.1 h.2

theorem Filter.IsWritable.filterText {f : Filter} (h : f.IsWritable) : FilterText f.chars f := by
  cases f with
  | index p => exact .index h.positionText
  | childIndex p => exact .childIndex h.positionText
  | text test => exact .text test
  | «attribute» name test =>
    have htext := FilterText.attr h.1.namedText
    rw [String.ofList_toList] at htext
    exact htext
  | data name test =>
    have htext := FilterText.data h.1.namedText
    rw [String.ofList_toList] at htext
    exact htext

theorem Filter.IsWritable.unbracketed {f : Filter} (h : f.IsWritable) : Unbracketed f.chars := by
  cases f with
  | index p => exact h.positionText.plain.unbracketed
  | childIndex p => exact ((plain_sign (by simp)).cons h.positionText.plain).unbracketed
  | text test =>
    have htext : Unbracketed "text".toList := by decide
    exact htext.append (ValueTest.unbracketed h)
  | «attribute» name test =>
    have hsign : Unbracketed ['@'] := by decide
    exact hsign.append (h.1.unbracketed.append (ValueTest.unbracketed h.2))
  | data name test =>
    have hsign : Unbracketed ['$'] := by decide
    exact hsign.append (h.1.unbracketed.append (ValueTest.unbracketed h.2))

/-! ## Steps -/

/-- A step whose printed form can be read: it is one that a text can say at all, and each of its parts
keeps clear of the characters that would end it. -/
structure Step.IsWritable (step : Step) : Prop extends Step.WellFormed step where
  tag_chars : ∀ tag, step.tag = some (.named tag) →
    tag ≠ "" ∧ ∀ c ∈ tag.toList, isTagChar c = true
  identity_plain : ∀ identity ∈ step.identity, Plain identity.toList
  key_plain : ∀ key ∈ step.key, Plain key.raw.toList
  /-- its distance does not fit -/
  sibling_ne_least : step.sibling ≠ Int32.minValue
  filters : ∀ f ∈ step.filters, f.IsWritable
  childIndex : ∀ p ∈ step.childIndex, p.IsWritable
  /-- nothing would be printed for it -/
  says_something : step ≠ {}

namespace Step

/-- The step without its filters. -/
def bare (step : Step) : Step := { step with filters := [], childIndex := none }

/-- The filters of a step in the order of printing. -/
def group (step : Step) : List Filter :=
  step.filters ++ step.childIndex.toList.map Filter.childIndex

theorem WellFormed.childIndex?_eq_none {step : Step} (h : step.WellFormed) :
    ∀ f ∈ step.filters, f.childIndex? = none := by
  intro f hf
  cases f with
  | childIndex p => exact absurd hf (h.no_childIndex p)
  | index | text | «attribute» | data => rfl

theorem WellFormed.childIndices_group {step : Step} (h : step.WellFormed) :
    step.group.filterMap Filter.childIndex? = step.childIndex.toList := by
  have hself : Filter.childIndex? ∘ Filter.childIndex = some := rfl
  rw [group, List.filterMap_append, List.filterMap_eq_nil_iff.mpr h.childIndex?_eq_none,
    List.filterMap_map, hself, List.filterMap_some, List.nil_append]

theorem WellFormed.bare_withFilters {step : Step} (h : step.WellFormed) :
    step.bare.withFilters step.group = step := by
  have hothers : step.group.filter (fun f => f.childIndex?.isNone) = step.filters := by
    rw [group, List.filter_append, List.filter_eq_self.mpr, List.filter_eq_nil_iff.mpr,
      List.append_nil]
    · intro f hf
      obtain ⟨p, -, rfl⟩ := List.mem_map.mp hf
      simp [Filter.childIndex?]
    · intro f hf
      simp [h.childIndex?_eq_none f hf]
  rw [Step.withFilters, hothers, h.childIndices_group]
  simp [bare]

theorem WellFormed.compatible {step : Step} (h : step.WellFormed) :
    Compatible step.bare.sibling step.group := by
  constructor
  case indexAlone =>
    intro f hf hindex
    cases f with
    | index p =>
      have hmem : Filter.index p ∈ step.filters := by simpa [group] using hf
      obtain ⟨hfilters, hnone⟩ := h.index_alone p hmem
      rw [group, hfilters, hnone]
      rfl
    | childIndex | text | «attribute» | data => exact absurd hindex (by simp [Filter.isIndex])
  case oneChildIndex =>
    rw [h.childIndices_group]
    cases step.childIndex <;> simp
  case noSiblingIndex =>
    intro hs
    rw [h.childIndices_group, (h.sibling_bare hs).2.2]
    rfl

end Step

/-! ## Selectors -/

theorem Step.IsWritable.tagText {step : Step} (h : step.IsWritable) :
    TagText ((step.tag.map TagTest.chars).getD []) step.tag := by
  cases htag : step.tag with
  | none => exact .absent
  | some test =>
    cases test with
    | any => exact .any
    | named tag =>
      obtain ⟨hne, hchars⟩ := h.tag_chars tag htag
      have htext := TagText.named (mt String.toList_eq_nil_iff.mp hne) hchars
      rw [String.ofList_toList] at htext
      exact htext

theorem TagText.plain {cs : List Char} {tag : Option TagTest} (h : TagText cs tag) : Plain cs := by
  cases h with
  | absent => simp [Plain]
  | any => simp [Plain]
  | named _ hchars =>
    exact .of_class (isTagChar_eq_false (by simp)) (isTagChar_eq_false (by simp))
      (isTagChar_eq_false (by simp)) hchars

theorem Step.IsWritable.nameText {step : Step} (h : step.IsWritable) :
    ∃ n, NameText n step.identity step.key ∧ Plain n := by
  have hdot : Plain ['.'] := by simp [Plain]
  have hhash : Plain ['#'] := by simp [Plain]
  cases hidentity : step.identity with
  | some identity =>
    -- beside an identity there is no key
    have hkey : step.key = none := by
      rcases h.one_name with hnone | hnone
      · exact absurd (hidentity.symm.trans hnone) (by simp)
      · exact hnone
    have hne := h.identity_ne identity hidentity
    have htext := NameText.identity (mt String.toList_eq_nil_iff.mp hne)
    rw [String.ofList_toList] at htext
    rw [hkey]
    exact ⟨_, htext, hdot.cons (h.identity_plain identity hidentity)⟩
  | none =>
    cases hkey : step.key with
    | none => exact ⟨[], .absent, by simp [Plain]⟩
    | some key =>
      have hne := h.key_ne key hkey
      have htext := NameText.key (mt String.toList_eq_nil_iff.mp hne)
      rw [String.ofList_toList] at htext
      exact ⟨_, htext, hhash.cons (h.key_plain key hkey)⟩

theorem plain_marker (mode : Mode) : Plain mode.marker := by
  cases mode <;> simp [Plain, Mode.marker]

theorem Step.IsWritable.siblingText {step : Step} (h : step.IsWritable) (hs : step.sibling ≠ 0) :
    SiblingText (siblingChars step.sibling) step.sibling := by
  have hzero : step.sibling.toInt ≠ 0 := fun heq => hs (Int32.toInt_inj.mp heq)
  have hleast : step.sibling.toInt ≠ -2147483648 :=
    fun heq => h.sibling_ne_least (Int32.toInt_inj.mp heq)
  have hlo := step.sibling.le_toInt
  have hhi := step.sibling.toInt_lt
  apply siblingText_chars
  · omega
  · rw [Numeral.signed32]
    omega

/-- The selector of a writable step is one, and can stand outside all brackets. -/
theorem Step.IsWritable.selectorText {step : Step} (h : step.IsWritable) :
    SelectorText step.bare.selectorChars step.bare ∧ Plain step.bare.selectorChars := by
  obtain ⟨n, hname, hplain⟩ := h.nameText
  have htag := h.tagText
  have hchars : step.bare.selectorChars = step.mode.marker ++ siblingChars step.sibling ++
      (step.tag.map TagTest.chars).getD [] ++ n := hname.selectorChars_eq step.bare
  by_cases hs : step.sibling = 0
  · have hbare : step.bare =
        { mode := step.mode, tag := step.tag, identity := step.identity, key := step.key } := by
      rw [← hs]
      rfl
    have hnone : siblingChars 0 = [] := rfl
    rw [hs, hnone, List.append_nil] at hchars
    rw [hchars]
    constructor
    · rw [hbare]
      exact .node htag hname
    · exact ((plain_marker step.mode).append htag.plain).append hplain
  · obtain ⟨hmode, hnotag, -⟩ := h.sibling_bare hs
    have hbare : step.bare =
        { sibling := step.sibling, identity := step.identity, key := step.key } := by
      rw [bare, hmode, hnotag]
    have hsibling := h.siblingText hs
    rw [hmode, hnotag] at hchars
    have hwritten : step.bare.selectorChars = siblingChars step.sibling ++ n := by
      simpa [Mode.marker] using hchars
    rw [hwritten]
    constructor
    · rw [hbare]
      exact .sibling hsibling hname
    · exact hsibling.plain.append hplain

theorem SelectorText.ne_nil {cs : List Char} {step : Step} (h : SelectorText cs step)
    (hne : step ≠ {}) : cs ≠ [] := by
  intro hnil
  cases h with
  | @node mode t n tag identity key ht hn =>
    obtain ⟨hfront, rfl⟩ := List.append_eq_nil_iff.mp hnil
    obtain ⟨hmode, rfl⟩ := List.append_eq_nil_iff.mp hfront
    obtain rfl : mode = .exact := by
      cases mode with
      | exact => rfl
      | any | ancestor => exact absurd hmode (by simp [Mode.marker])
    cases hn
    cases ht with
    | absent => exact hne rfl
    | named hempty => exact hempty rfl
  | sibling hs hn => exact hs.ne_nil (List.append_eq_nil_iff.mp hnil).1

/-! ## Paths -/

theorem Step.IsWritable.group_isWritable {step : Step} (h : step.IsWritable) :
    ∀ f ∈ step.group, f.IsWritable := by
  intro f hf
  rcases List.mem_append.mp hf with hmem | hmem
  · exact h.filters f hmem
  · obtain ⟨p, hp, rfl⟩ := List.mem_map.mp hmem
    exact h.childIndex p (Option.mem_toList.mp hp)

theorem Step.IsWritable.readsBack {step : Step} (h : step.IsWritable) : step.ReadsBack := by
  obtain ⟨hselector, hplain⟩ := h.selectorText
  rw [← h.bare_withFilters]
  by_cases hgroup : step.group = []
  · -- without filters the step is bare, and then the selector is what it says
    obtain ⟨hfilters, hindices⟩ := List.append_eq_nil_iff.mp hgroup
    have hnone : step.childIndex = none := by simpa using hindices
    have hbare : step.bare = step := by rw [bare, ← hfilters, ← hnone]
    rw [h.bare_withFilters, ← hbare]
    rw [← hbare] at h
    exact hselector.readsBack (hselector.ne_nil h.says_something) hplain
  · have hwritable := h.group_isWritable
    refine hselector.readsBack_withFilters hplain hgroup ?_ h.compatible ?_
    · exact fun f hf => ⟨(hwritable f hf).filterText, (hwritable f hf).unbracketed.joinFree⟩
    · apply throughBodies_level Nat.one_pos
      intro b hb
      obtain ⟨f, hf, rfl⟩ := List.mem_map.mp hb
      have hmem := (childLast_perm step.group).mem_iff.mp hf
      exact (hwritable f hmem).unbracketed.balanced.through Nat.one_pos

/-- **A path of writable steps is read back from what is printed for it.** -/
theorem parse_render_of_writable {steps : List Step} (hne : steps ≠ [])
    (h : ∀ step ∈ steps, step.IsWritable) : parse (render steps) = .ok steps := by
  have htext := pathText_chars hne fun step hstep => (h step hstep).readsBack
  have hread := readPath_eq_ok_iff.mpr htext
  rw [parse, render, String.toList_ofList]
  exact hread

/-- The longest way back, a name that ends in the star of its operator, a slash in a value, an identity
with markers in it and the furthest place before the last one. -/
theorem parse_render_of_writable_extremes :
    let back : Step :=
      { sibling := -2147483647, key := some ⟨"a.b*"⟩,
        filters := [.attribute "n*" ⟨.startsWith, "p/q"⟩, .text ⟨.contains, "=1"⟩] }
    let below : Step :=
      { mode := .any, tag := some (.named "été-1"), identity := some "~x#y",
        filters := [.data "size^" ⟨.contains, ""⟩],
        childIndex := some (.last (-9223372036854775807)) }
    (back.IsWritable ∧ below.IsWritable) ∧
      render [back, below] = "<2147483647<#a.b*[@n**=p/q]AND[text~=1]" ++
        "/~été-1.~x#y[$size^~]AND[:last()-9223372036854775807]" ∧
      parse (render [back, below]) = .ok [back, below] := by
  intro back below
  have hstar : NameFits "n*".toList .startsWith := by constructor <;> decide
  have hcaret : NameFits "size^".toList .contains := by constructor <;> decide
  have hback : back.IsWritable := by
    constructor
    case toWellFormed => constructor <;> simp [back]
    case filters => simpa [back, Filter.IsWritable] using ⟨⟨hstar, by decide⟩, by decide⟩
    case key_plain => simp [back, Plain]
    case sibling_ne_least => decide
    all_goals simp [back]
  have hbelow : below.IsWritable := by
    constructor
    case toWellFormed => constructor <;> simp [below]
    case tag_chars =>
      have hchars : "été-1".toList.all isTagChar = true := by decide +kernel
      simpa [below] using hchars
    case identity_plain => simp [below, Plain]
    case filters => simpa [below, Filter.IsWritable] using ⟨hcaret, by decide⟩
    case childIndex => simpa [below, Position.IsWritable] using by decide
    case sibling_ne_least => decide
    all_goals simp [below]
  refine ⟨⟨hback, hbelow⟩, by decide +kernel, parse_render_of_writable (by simp) ?_⟩
  simpa using ⟨hback, hbelow⟩

end SceneSelect.Path
