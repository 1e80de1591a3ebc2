import SceneSelect.Proofs.Scene.Texts
import SceneSelect.Proofs.Search.Descent
import SceneSelect.Proofs.Search.Inner

/-!
# `Proofs/Search/TextSearch.lean` — searching for a text

A text filter goes down from a node to a text leaf, acceptance goes up from the node to an element, and
the text of that element is gathered down from there. The three meet because all of it happens on one
way: the leaf is below the node, the node below the element, and so the leaf is one of those whose texts
are gathered.

> **Whatever a path finds whose last step asks for texts has an element and is structured. It is the
> nearest element above a node that the step is about, every text asked for is on a leaf right below
> that node or below untagged nodes, and each is part of the text of what is found. As all finds have
> elements, it does not matter which element rule is in force** (`search_of_text`).
-/

set_option autoImplicit false

namespace SceneSelect

open SceneSelect.Path

/-- A text that passes a test holds what the test looks for. -/
theorem Path.ValueTest.infix_of_accepts {test : ValueTest} {text : String}
    (h : test.accepts text = true) : test.value.toList <:+: text.toList := by
  rw [accepts] at h
  split at h
  · exact eq_of_beq h ▸ List.infix_refl _
  · exact (List.isPrefixOf_iff_prefix.mp h).isInfix
  · exact (List.isSuffixOf_iff_suffix.mp h).isInfix
  · exact Text.occursIn_iff.mp h

namespace Scene

variable {s : Scene} {step : Step} {test : ValueTest} {r c : Ref}

/-! ## The way down to a text -/

/-- A text leaf in the part has a text that passes the test, and on the way down to it lie only
structured nodes without a tag. -/
def TextIn (s : Scene) (test : ValueTest) (part : Ref → Prop) : Prop :=
  ∃ leaf text, s.leafText? leaf = some text ∧ test.accepts text = true ∧ part leaf ∧
    ∀ m, s.Between part leaf m → s.IsInner m ∧ s.IsUntagged m

theorem textIn_below_iff (hs : s.IsForest) :
    s.TextIn test (s.Below r) ↔ ∃ c ∈ s.children r, s.TextIn test (s.AtOrBelow c) := by
  have hpart : ∀ leaf, (s.Below r leaf ∧ ∀ m, s.Between (s.Below r) leaf m →
      s.IsInner m ∧ s.IsUntagged m) ↔ ∃ c ∈ s.children r, s.AtOrBelow c leaf ∧
        ∀ m, s.Between (s.AtOrBelow c) leaf m → s.IsInner m ∧ s.IsUntagged m :=
    fun leaf => hs.below_and_iff (P := fun way => ∀ m, way m → s.IsInner m ∧ s.IsUntagged m)
  constructor
  · rintro ⟨leaf, text, htext, haccepts, hway⟩
    obtain ⟨c, hc, hway⟩ := (hpart leaf).mp hway
    exact ⟨c, hc, leaf, text, htext, haccepts, hway⟩
  · rintro ⟨c, hc, leaf, text, htext, haccepts, hway⟩
    exact ⟨leaf, text, htext, haccepts, (hpart leaf).mpr ⟨c, hc, hway⟩⟩

theorem between_atOrBelow_iff {n m : Ref} (hn : s.Below c n) :
    s.Between (s.AtOrBelow c) n m ↔ m = c ∨ s.Between (s.Below c) n m := by
  constructor
  · rintro ⟨hmc, hne, hclimb⟩
    by_cases heq : m = c
    · exact Or.inl heq
    · exact Or.inr ⟨⟨heq, hmc⟩, hne, hclimb⟩
  · rintro (rfl | ⟨hmc, hne, hclimb⟩)
    · exact ⟨.refl, hn.1.symm, hn.2⟩
    · exact ⟨hmc.2, hne, hclimb⟩

/-- From a text leaf no way leads on. -/
theorem textIn_of_leaf (hs : s.IsForest) {text : String} (hc : s.leafText? c = some text) :
    s.TextIn test (s.AtOrBelow c) ↔ test.accepts text = true := by
  constructor
  · rintro ⟨leaf, other, htext, haccepts, hbelow, hway⟩
    by_cases heq : leaf = c
    · subst heq
      exact Option.some.inj (htext.symm.trans hc) ▸ haccepts
    · have hinner := (hway c ((between_atOrBelow_iff ⟨heq, hbelow⟩).mpr (Or.inl rfl))).1
      exact absurd (isText_iff.mpr ⟨text, hc⟩) hinner.not_isText
  · intro haccepts
    exact ⟨c, text, hc, haccepts, .refl, fun m hm => absurd hm hs.not_between_self⟩

/-- A way may pass a structured node without a tag. -/
theorem textIn_of_inner (hc : s.IsInner c) :
    s.TextIn test (s.AtOrBelow c) ↔ s.IsUntagged c ∧ s.TextIn test (s.Below c) := by
  constructor
  · rintro ⟨leaf, text, htext, haccepts, hbelow, hway⟩
    have hne : leaf ≠ c := by
      rintro rfl
      exact hc.not_isText (isText_iff.mpr ⟨text, htext⟩)
    have hsplit := fun m => between_atOrBelow_iff (m := m) ⟨hne, hbelow⟩
    exact ⟨(hway c ((hsplit c).mpr (Or.inl rfl))).2, leaf, text, htext, haccepts, ⟨hne, hbelow⟩,
      fun m hm => hway m ((hsplit m).mpr (Or.inr hm))⟩
  · rintro ⟨huntagged, leaf, text, htext, haccepts, hbelow, hway⟩
    refine ⟨leaf, text, htext, haccepts, hbelow.2, fun m hm => ?_⟩
    rcases (between_atOrBelow_iff hbelow).mp hm with rfl | hm
    · exact ⟨hc, huntagged⟩
    · exact hway m hm

/-- What the test on the text below a node comes to. -/
theorem hasTextBelow_iff (hs : s.IsForest) {n : Nat} (hr : s.contains r = true)
    (hn : s.levels ≤ n + s.depth r) :
    s.hasTextBelow test n r = true ↔ s.TextIn test (s.Below r) := by
  induction n generalizing r with
  | zero => exact absurd (hs.depth_lt_levels hr) (by omega)
  | succ n ih =>
    rw [hasTextBelow, List.any_eq_true, textIn_below_iff hs]
    refine exists_congr fun c => and_congr_right fun hc => ?_
    have hlive := hs.contains_child hc
    obtain ⟨node, hnode⟩ := contains_iff.mp hlive
    have hleaf : s.leafText? c = node.text := by rw [leafText?, hnode, Option.bind_some]
    cases htext : node.text with
    | some text => simp only [hnode, htext, textIn_of_leaf hs (hleaf.trans htext)]
    | none =>
      have hinner : s.IsInner c := ⟨node, hnode, by rw [Label.isText, htext]; rfl⟩
      have hbelow := ih hlive (by rw [hs.depth_of_child hc]; omega)
      simp only [hnode, htext, textIn_of_inner hinner, isUntagged_iff hnode, Bool.and_eq_true,
        Option.isNone_iff_eq_none, hbelow]

theorem textIn_of_resolve (hs : s.IsForest) (h : (s.resolve? c (.text test)).isSome = true) :
    s.TextIn test (s.Below c) := by
  rw [resolve?] at h
  split at h
  · rename_i hboth
    obtain ⟨hlive, htext⟩ := Bool.and_eq_true_iff.mp hboth
    exact (hasTextBelow_iff hs hlive (Nat.le_add_right _ _)).mp htext
  · exact absurd h (by simp)

/-! ## Finds of a step with text filters -/

/-- What a step with text filters finds. -/
structure IsTextFind (s : Scene) (step : Step) (r : Ref) : Prop where
  element : s.hasElement r = true
  inner : s.IsInner r
  /-- it is the nearest element above a node that passes the tests on its names, and below which are
  all texts that are asked for -/
  source : ∃ c node, s.node? c = some node ∧ node.isText = false ∧ passes step node = true ∧
    s.IsNearestAbove c r ∧ ∀ test, .text test ∈ step.filters → s.TextIn test (s.Below c)
  /-- what is asked for is part of its text -/
  text : ∀ test, .text test ∈ step.filters →
    ∃ t, s.text? r = some t ∧ test.value.toList <:+: t.toList

theorem isTextFree_of_text (h : Filter.text test ∈ step.filters) : step.isTextFree = false :=
  List.all_eq_false.mpr ⟨.text test, h, by simp [Filter.isText]⟩

theorem isTextFind_of_accept (hs : s.Tidy) (htext : step.isTextFree = false)
    (haccept : s.accept? step c = some r) : s.IsTextFind step r := by
  have hforest := hs.linked.isForest
  obtain ⟨⟨node, hnode, hinner, hpasses, hall⟩, hfound⟩ := (accept?_eq_some_iff hforest).mp haccept
  rw [IsFoundAs, htext] at hfound
  have hnear : s.IsNearestAbove c r := hfound
  have htexts : ∀ test, .text test ∈ step.filters → s.TextIn test (s.Below c) :=
    fun test htest => textIn_of_resolve hforest (hall _ htest)
  refine ⟨hnear.element, hs.isInner_above ⟨node, hnode, hinner⟩ hnear.above,
    ⟨c, node, hnode, hinner, hpasses, hnear, htexts⟩, fun test htest => ?_⟩
  obtain ⟨leaf, text, hleaf, haccepts, hbelow, -⟩ := htexts test htest
  obtain ⟨t, ht, hpart⟩ := infix_text? hforest hs.bare hleaf (hbelow.2.trans hnear.above)
  exact ⟨t, ht, (Path.ValueTest.infix_of_accepts haccepts).trans hpart⟩

/-! ## Searches -/

/-- **A search for a text finds, under every element rule, the nearest elements above the nodes where the
text is, and each holds it; a reader that asks for the text of the first find is given one that holds
it.** -/
theorem search_of_text
    (hbuild : (∃ roots, Scene.ofSnapshots roots = .ok s) ∨ ∃ v, Scene.ofJson v = .ok s)
    {path : List Step} {last : Step} (hlast : path.getLast? = some last)
    (htest : .text test ∈ last.filters) (strict : Bool) :
    (∀ scope rule, s.search path scope { element := rule, strictIndex := strict } =
      s.search path scope { element := .logical, strictIndex := strict }) ∧
    (∀ scope rule found,
      s.search path scope { element := rule, strictIndex := strict } = .ok found →
      ∀ r ∈ found, s.IsTextFind last r) ∧
    ∀ (host : Host) (text : String) (rule : ElementRule) (found : List Ref),
      host.scene = some s → Host.readPath text = .ok path →
      host.findAll { element := rule, strictIndex := strict } text .everywhere = .ok found →
      found ≠ [] →
      ∃ t, host.readText { element := rule, strictIndex := strict } text = .ok (some t) ∧
        ∀ test, .text test ∈ last.filters → test.value.toList <:+: t.toList := by
  have hs : s.Tidy := by
    rcases hbuild with ⟨roots, hbuild⟩ | ⟨v, hread⟩
    · exact Tidy.ofSnapshots hbuild
    · exact Tidy.ofJson hread
  have hlogical : ∀ scope found,
      s.search path scope { element := .logical, strictIndex := strict } = .ok found →
      ∀ r ∈ found, s.IsTextFind last r := by
    intro scope found hfound r hr
    obtain ⟨c, haccept⟩ :=
      Area.exists_accept_of_find hlast (search_logical_iff.mp hfound) r hr
    exact isTextFind_of_accept hs (isTextFree_of_text htest) haccept
  have hrules : ∀ scope rule, s.search path scope { element := rule, strictIndex := strict } =
      s.search path scope { element := .logical, strictIndex := strict } :=
    fun scope => search_eq_logical fun found hfound r hr =>
      (hlogical scope found hfound r hr).element
  have hfinds : ∀ scope rule found,
      s.search path scope { element := rule, strictIndex := strict } = .ok found →
      ∀ r ∈ found, s.IsTextFind last r :=
    fun scope rule found hfound => hlogical scope found (hrules scope rule ▸ hfound)
  refine ⟨hrules, hfinds, ?_⟩
  intro host text rule found hhost hread hfound hne
  obtain ⟨r, rest, rfl⟩ := List.exists_cons_of_ne_nil hne
  rw [Host.findAll_eq hhost hread] at hfound
  have hfirst := hfinds .everywhere rule _ hfound r List.mem_cons_self
  obtain ⟨t, ht, -⟩ := hfirst.text test htest
  refine ⟨t, ?_, fun other hother => ?_⟩
  · rw [Host.readText, Host.readFirst_eq hhost hread, hfound]
    exact congrArg Except.ok ht
  · obtain ⟨t', ht', hpart⟩ := hfirst.text other hother
    exact Option.some.inj (ht'.symm.trans ht) ▸ hpart

/-- A label without an element in a button, its texts in and beside a wrapper. Two texts are asked for. -/
theorem search_of_text_button :
    let wrapper := Snapshot.node {} [.node { text := some "Save" } []]
    let label := Snapshot.node { tag := some "label" } [wrapper, .node { text := some " as" } []]
    let roots := [("main", Snapshot.node { tag := some "button", element := some {} } [label])]
    let s := (Scene.ofSnapshots roots).toOption.getD {}
    let host : Host := { scene := some s }
    let save : ValueTest := ⟨.equal, "Save"⟩
    let last : Step :=
      { mode := .any, tag := some (.named "label"), filters := [.text save, .text ⟨.endsWith, "s"⟩] }
    let expression := "~label[text=Save]AND[text^=s]"
    let rules : FindRules := { element := .requireElement }
    Scene.ofSnapshots roots = .ok s ∧ Host.readPath expression = .ok [last] ∧
      host.findAll rules expression .everywhere = .ok [⟨0⟩] ∧
      (∀ scope rule, s.search [last] scope { element := rule } = s.search [last] scope {}) ∧
      s.IsTextFind last ⟨0⟩ ∧ s.text? ⟨0⟩ = some "Save as" ∧
      ∃ t, host.readText rules expression = .ok (some t) ∧
        ∀ test, .text test ∈ last.filters → test.value.toList <:+: t.toList := by
  intro wrapper label roots s host save last expression rules
  have hbuilds : (Scene.ofSnapshots roots).toOption.isSome = true := by decide +kernel
  have hbuild : Scene.ofSnapshots roots = .ok s := eq_ok_getD hbuilds {}
  have hread : Host.readPath expression = .ok [last] := by decide +kernel
  have hsearch : s.search [last] .everywhere rules = .ok [⟨0⟩] := by decide +kernel
  have hfound : host.findAll rules expression .everywhere = .ok [⟨0⟩] := by decide +kernel
  have htext : s.text? ⟨0⟩ = some "Save as" := by
    rw [text?_eq]
    decide +kernel
  clear_value s
  have hsave : Filter.text save ∈ last.filters := List.mem_cons_self
  obtain ⟨hrules, hfinds, hreads⟩ :=
    search_of_text (Or.inl ⟨roots, hbuild⟩) (List.getLast?_singleton (a := last)) hsave false
  exact ⟨hbuild, hread, hfound, hrules, hfinds .everywhere _ _ hsearch ⟨0⟩ List.mem_cons_self, htext,
    hreads host expression _ _ rfl hread hfound (List.cons_ne_nil _ _)⟩

end Scene

end SceneSelect
