import SceneSelect.Proofs.Search.Acceptance
import SceneSelect.Proofs.Search.Elements

/-!
# `Proofs/Search/AttributeSearch.lean` — searching for an attribute

What a search finds need not be what its last step is about: a text filter goes over to the nearest
element above, and the rule for the nearest element goes over to one below. Both only leave a node that
has no element of its own. An attribute is read off the element, so where an attribute filter holds
neither has anywhere to go:

> **Whatever a path finds whose last step asks for an attribute meets everything that the step asks for,
> itself and under every element rule** (`search_of_attribute`).

This is so in every scene, whatever its links are.
-/

set_option autoImplicit false

namespace SceneSelect.Scene

open SceneSelect.Path

variable {s : Scene} {step : Step} {r c : Ref} {name : String} {test : ValueTest}

/-! ## An attribute is that of an element -/

theorem hasElement_of_attribute (h : (s.attribute? r name).isSome = true) :
    s.hasElement r = true := by
  obtain ⟨value, hvalue⟩ := Option.isSome_iff_exists.mp h
  obtain ⟨element, helement, -⟩ := Option.bind_eq_some_iff.mp hvalue
  obtain ⟨node, hnode, hsome⟩ := Option.bind_eq_some_iff.mp helement
  rw [hasElement, hnode, Option.any_some, Label.isVirtual, hsome]
  rfl

theorem exists_value_of_resolve (h : (s.resolve? r (.attribute name test)).isSome = true) :
    ∃ value, s.attribute? r name = some value ∧ test.acceptsValue value = true := by
  rw [resolve?] at h
  split at h
  · rename_i hany
    exact (Option.any_eq_true _ _).mp hany
  · exact absurd h (by simp)

/-- The nearest element above an element is the element itself. -/
theorem resolve?_of_hasElement (hr : s.hasElement r = true) {f : Filter}
    (h : (s.resolve? r f).isSome = true) : s.resolve? r f = some r := by
  rw [resolve?_eq_some_iff, elementAbove?_of_hasElement hr, Option.getD_some, ite_self]
  exact ⟨h, rfl⟩

/-! ## Finds of a step with attribute filters -/

/-- The node itself meets everything that the step asks for. -/
structure Meets (s : Scene) (step : Step) (r : Ref) : Prop where
  names : ∃ node, s.node? r = some node ∧ node.isText = false ∧ passes step node = true
  filters : ∀ f ∈ step.filters, s.resolve? r f = some r
  attributes : ∀ name test, .attribute name test ∈ step.filters →
    ∃ value, s.attribute? r name = some value ∧ test.acceptsValue value = true

theorem hasElement_of_accepts (hattribute : .attribute name test ∈ step.filters)
    (h : s.Accepts step r) : s.hasElement r = true := by
  obtain ⟨_, _, _, _, hall⟩ := h
  obtain ⟨value, hvalue, -⟩ := exists_value_of_resolve (hall _ hattribute)
  exact hasElement_of_attribute (by rw [hvalue]; rfl)

theorem Accepts.meets (h : s.Accepts step r) (hr : s.hasElement r = true) : s.Meets step r := by
  obtain ⟨node, hnode, hinner, hpasses, hall⟩ := h
  refine ⟨⟨node, hnode, hinner, hpasses⟩, ?_, ?_⟩
  · intro f hf
    exact resolve?_of_hasElement hr (hall f hf)
  · intro name test hattribute
    exact exists_value_of_resolve (hall _ hattribute)

/-- An element that a step accepts is found as itself. -/
theorem eq_of_accept_of_hasElement (hc : s.hasElement c = true) (h : s.accept? step c = some r) :
    r = c := by
  obtain ⟨-, hfound⟩ := accept?_eq_some.mp h
  rwa [elementAbove?_of_hasElement hc, Option.getD_some, ite_self] at hfound

theorem meets_of_accept (hattribute : .attribute name test ∈ step.filters)
    (h : s.accept? step c = some r) : s.Meets step r ∧ s.hasElement r = true := by
  have haccepts : s.Accepts step c := (accept?_eq_some.mp h).1
  have hc : s.hasElement c = true := hasElement_of_accepts hattribute haccepts
  obtain rfl := eq_of_accept_of_hasElement hc h
  exact ⟨haccepts.meets hc, hc⟩

/-! ## Searches -/

/-- **A search for an attribute finds the same under every element rule, and whatever it finds meets
everything that the last step asks for**, the texts and data among it included. -/
theorem search_of_attribute (s : Scene) {path : List Step} {last : Step}
    (hlast : path.getLast? = some last) (hattribute : .attribute name test ∈ last.filters)
    (strict : Bool) (scope : Scope) (rule : ElementRule) :
    s.search path scope { element := rule, strictIndex := strict } =
      s.search path scope { element := .logical, strictIndex := strict } ∧
    ∀ found, s.search path scope { element := rule, strictIndex := strict } = .ok found →
      ∀ r ∈ found, s.Meets last r := by
  have hlogical : ∀ found,
      s.search path scope { element := .logical, strictIndex := strict } = .ok found →
      ∀ r ∈ found, s.Meets last r ∧ s.hasElement r = true := by
    intro found hfound r hr
    obtain ⟨c, haccept⟩ := Area.exists_accept_of_find hlast (search_logical_iff.mp hfound) r hr
    exact meets_of_accept hattribute haccept
  have hrule : s.search path scope { element := rule, strictIndex := strict } =
      s.search path scope { element := .logical, strictIndex := strict } :=
    search_eq_logical (fun found hfound r hr => (hlogical found hfound r hr).2) rule
  refine ⟨hrule, ?_⟩
  intro found hfound r hr
  exact (hlogical found (hrule ▸ hfound) r hr).1

/-- A button with a caption. Its label has the same caption and no element, so it is not found. -/
theorem search_of_attribute_button :
    let caption := Snapshot.node { text := some "Save" } []
    let label := Snapshot.node { tag := some "label" } [caption]
    let button : Label :=
      { tag := some "button", element := some { attributes := .ofList [("mode", "edit")] } }
    let roots := [("main", Snapshot.node button [label, caption])]
    let s := (Scene.ofSnapshots roots).toOption.getD {}
    let edit : ValueTest := ⟨.startsWith, "ed"⟩
    let last : Step :=
      { mode := .any, filters := [.text ⟨.equal, "Save"⟩, .attribute "mode" edit] }
    let path : List Step := [last]
    let rules : FindRules := { element := .nearestDescendant false }
    path.getLast? = some last ∧ .attribute "mode" edit ∈ last.filters ∧
      s.search path .everywhere rules = .ok [⟨0⟩] ∧
      s.search path .everywhere rules = s.search path .everywhere {} ∧ s.Meets last ⟨0⟩ := by
  intro caption label button roots s edit last path rules
  have hfound : s.search path .everywhere rules = .ok [⟨0⟩] := by decide +kernel
  have hedit : Filter.attribute "mode" edit ∈ last.filters :=
    List.mem_cons_of_mem _ List.mem_cons_self
  clear_value s
  have hlast : path.getLast? = some last := List.getLast?_singleton
  obtain ⟨hsame, hmeets⟩ :=
    search_of_attribute s hlast hedit false .everywhere (.nearestDescendant false)
  exact ⟨hlast, hedit, hfound, hsame, hmeets [⟨0⟩] hfound ⟨0⟩ List.mem_cons_self⟩

end SceneSelect.Scene
