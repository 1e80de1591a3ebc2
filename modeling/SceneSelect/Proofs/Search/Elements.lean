import SceneSelect.Proofs.Scene.Edits
import SceneSelect.Proofs.Scene.Nearest
import SceneSelect.Proofs.Search.Finds

/-!
# `Proofs/Search/Elements.lean` — what the element rules make of the finds

All rules start from the same finds, those that the logical rule keeps as they are. The finds of a path
are live and no node is among them twice (`Area.live_nodup_find`), so a find that is not virtual has
an element, and it is its own nearest element below.

> **The rule that requires elements keeps the finds or names one without. The rule for the nearest
> element keeps what the finds give way to, each element once, at its first place; where nothing is
> tolerated and a find has no element below it, it names that find** (`search_elements`).
-/

set_option autoImplicit false

namespace SceneSelect

open SceneSelect.Path

/-! ## The finds of a path -/

namespace Area

variable {a : Area} {strict : Bool} {step : Step} {r found : Ref}

/-- Whatever a step finds, it accepted some node for it. -/
theorem exists_accept_of_mem_reach {origin : Origin} {index : Option Position}
    (h : found ∈ a.reach step index origin) : ∃ c, a.scene.accept? step c = some found := by
  obtain ⟨_, -, c, -, haccept⟩ | ⟨start, -, hancestor | hsibling⟩ := mem_reach h
  · exact ⟨c, haccept⟩
  · obtain ⟨c, -, haccept⟩ := exists_accept_of_ancestor hancestor
    exact ⟨c, haccept⟩
  · obtain ⟨-, _, -, c, -, haccept⟩ := exists_accept_of_sibling hsibling
    exact ⟨c, haccept⟩

theorem contains_of_accept (h : a.scene.accept? step r = some found) :
    a.scene.contains found = true := by
  rcases Scene.accept?_cases h with rfl | ⟨-, habove⟩
  · obtain ⟨node, hnode, -⟩ := Scene.accept?_inner h
    exact Scene.contains_iff.mpr ⟨node, hnode⟩
  · exact Scene.contains_of_hasElement (Scene.hasElement_elementAbove habove)

theorem exists_accept_of_follow {origins : List Origin} {kept : List Ref}
    (h : a.follow strict origins step = .ok kept) :
    ∀ r ∈ kept, ∃ c, a.scene.accept? step c = some r := by
  obtain ⟨index, -, hsub, -⟩ := follow_cases h
  intro r hr
  obtain ⟨origin, -, hreach⟩ := List.mem_flatMap.mp (hsub.subset hr)
  exact exists_accept_of_mem_reach hreach

theorem nodup_follow {origins : List Origin} {kept : List Ref}
    (h : a.follow strict origins step = .ok kept) : kept.Nodup := by
  obtain ⟨p, -, hslice⟩ := bind_eq_ok_iff.mp h
  have hdistinct := nodup_eraseDups (origins.flatMap (a.reach step p))
  rcases slice_cases hslice with ⟨-, rfl⟩ | ⟨-, hsub, -⟩
  · exact hdistinct
  · exact hdistinct.sublist hsub

/-- Whatever a path finds, its last step accepted some node for it. -/
theorem exists_accept_of_find {path : List Step} {last : Step} {kept : List Ref}
    (hlast : path.getLast? = some last) (h : a.find strict path = .ok kept) :
    ∀ r ∈ kept, ∃ c, a.scene.accept? last c = some r := by
  obtain rfl | ⟨origins, hfollow⟩ := follow_of_find hlast h
  · exact fun r hr => absurd hr List.not_mem_nil
  · exact exists_accept_of_follow hfollow

/-- The finds of a path are live, and no node is found twice. -/
theorem live_nodup_find {path : List Step} {kept : List Ref} (h : a.find strict path = .ok kept) :
    (∀ r ∈ kept, a.scene.contains r = true) ∧ kept.Nodup := by
  cases hlast : path.getLast? with
  | none =>
    obtain rfl := List.getLast?_eq_none_iff.mp hlast
    obtain rfl := Except.ok.inj h
    exact ⟨by simp, List.nodup_nil⟩
  | some last =>
    constructor
    · intro r hr
      obtain ⟨c, haccept⟩ := exists_accept_of_find hlast h r hr
      exact contains_of_accept haccept
    · obtain rfl | ⟨origins, hfollow⟩ := follow_of_find hlast h
      · exact List.nodup_nil
      · exact nodup_follow hfollow

/-- A path finds no more nodes than there are slots. -/
theorem length_find_le {path : List Step} {kept : List Ref} (h : a.find strict path = .ok kept) :
    kept.length ≤ a.scene.levels := by
  obtain ⟨hlive, hnodup⟩ := live_nodup_find h
  exact Scene.length_le_levels hnodup hlive

end Area

/-! ## The rules -/

namespace Scene

variable {s : Scene} {found : List Ref} {r : Ref}

theorem isVirtual_of_contains (hr : s.contains r = true) :
    ((s.node? r).any fun n => n.isVirtual) = !s.hasElement r := by
  obtain ⟨node, hnode⟩ := contains_iff.mp hr
  rw [hasElement, hnode, Option.any_some, Option.any_some, Bool.not_not]

theorem toElements_true (s : Scene) (found : List Ref) :
    s.toElements true found = .ok (found.filterMap s.elementBelow?) := by
  induction found with
  | nil => rfl
  | cons r rest ih =>
    cases hbelow : s.elementBelow? r with
    | none => rw [List.filterMap_cons_none hbelow, toElements, hbelow, ← ih]; rfl
    | some e => rw [List.filterMap_cons_some hbelow, toElements, hbelow, ih]; rfl

theorem toElements_of_all (h : ∀ r ∈ found, s.elementBelow? r ≠ none) (tolerateMissing : Bool) :
    s.toElements tolerateMissing found = .ok (found.filterMap s.elementBelow?) := by
  induction found with
  | nil => rfl
  | cons r rest ih =>
    obtain ⟨hr, hrest⟩ := List.forall_mem_cons.mp h
    obtain ⟨e, hbelow⟩ := Option.ne_none_iff_exists'.mp hr
    rw [List.filterMap_cons_some hbelow, toElements, hbelow, ih hrest]
    rfl

/-- Where nothing is tolerated, a find with no element below it is named. -/
theorem toElements_of_missing (h : ∃ r ∈ found, s.elementBelow? r = none) :
    ∃ r ∈ found, s.elementBelow? r = none ∧
      s.toElements false found = .error (.noElementBelow (s.describe r)) := by
  induction found with
  | nil => exact absurd h (by simp)
  | cons r rest ih =>
    cases hbelow : s.elementBelow? r with
    | none => exact ⟨r, List.mem_cons_self, hbelow, by rw [toElements, hbelow]; rfl⟩
    | some e =>
      have hrest : ∃ q ∈ rest, s.elementBelow? q = none := by
        obtain ⟨q, hq, hnone⟩ := h
        rcases List.mem_cons.mp hq with rfl | hq
        · exact absurd (hbelow.symm.trans hnone) (by simp)
        · exact ⟨q, hq, hnone⟩
      obtain ⟨q, hq, hnone, herror⟩ := ih hrest
      exact ⟨q, List.mem_cons_of_mem r hq, hnone, by rw [toElements, hbelow, herror]; rfl⟩

theorem exists_of_mem_toElements {tolerateMissing : Bool} {elements : List Ref} {e : Ref}
    (h : s.toElements tolerateMissing found = .ok elements) (he : e ∈ elements) :
    ∃ r ∈ found, s.elementBelow? r = some e := by
  apply List.mem_filterMap.mp
  cases tolerateMissing with
  | true =>
    rw [toElements_true] at h
    exact Except.ok.inj h ▸ he
  | false =>
    by_cases hall : ∀ r ∈ found, s.elementBelow? r ≠ none
    · rw [toElements_of_all hall] at h
      exact Except.ok.inj h ▸ he
    · have hmissing : ∃ r ∈ found, s.elementBelow? r = none := by simpa using hall
      obtain ⟨_, _, _, herror⟩ := toElements_of_missing hmissing
      rw [herror] at h
      exact absurd h (by simp)

theorem requireElement_of_all (hlive : ∀ r ∈ found, s.contains r = true)
    (h : ∀ r ∈ found, s.hasElement r = true) : s.applyRule found .requireElement = .ok found := by
  have hnone : (found.find? fun r => (s.node? r).any fun n => n.isVirtual) = none := by
    rw [List.find?_eq_none]
    intro r hr
    rw [isVirtual_of_contains (hlive r hr), h r hr]
    simp
  rw [applyRule, hnone]

theorem requireElement_of_missing (hlive : ∀ r ∈ found, s.contains r = true)
    (h : ∃ r ∈ found, s.hasElement r = false) :
    ∃ r ∈ found, s.hasElement r = false ∧
      s.applyRule found .requireElement = .error (.virtualNode (s.describe r)) := by
  cases hfind : found.find? fun r => (s.node? r).any fun n => n.isVirtual with
  | none =>
    obtain ⟨r, hr, hvirtual⟩ := h
    have hnot := List.find?_eq_none.mp hfind r hr
    rw [isVirtual_of_contains (hlive r hr), hvirtual] at hnot
    exact absurd rfl hnot
  | some r =>
    have hr := List.mem_of_find?_eq_some hfind
    have hvirtual := List.find?_some hfind
    rw [isVirtual_of_contains (hlive r hr), Bool.not_eq_true'] at hvirtual
    exact ⟨r, hr, hvirtual, by rw [applyRule, hfind]⟩

theorem filterMap_elementBelow_of_all (h : ∀ r ∈ found, s.hasElement r = true) :
    found.filterMap s.elementBelow? = found := by
  rw [List.filterMap_congr fun r hr => elementBelow?_of_hasElement (h r hr)]
  exact List.filterMap_some

/-- Where all finds have elements the rules have nothing to do. -/
theorem applyRule_of_all (h : ∀ r ∈ found, s.hasElement r = true) (hnodup : found.Nodup)
    (rule : ElementRule) : s.applyRule found rule = .ok found := by
  cases rule with
  | logical => rfl
  | requireElement => exact requireElement_of_all (fun r hr => contains_of_hasElement (h r hr)) h
  | nearestDescendant tolerateMissing =>
    have hsome : ∀ r ∈ found, s.elementBelow? r ≠ none := by
      intro r hr
      rw [elementBelow?_of_hasElement (h r hr)]
      simp
    rw [applyRule, toElements_of_all hsome, filterMap_elementBelow_of_all h]
    exact congrArg Except.ok (eraseDups_of_nodup hnodup)

theorem elements_of_requireElement (hlive : ∀ r ∈ found, s.contains r = true)
    (hnodup : found.Nodup) {kept : List Ref} (h : s.applyRule found .requireElement = .ok kept) :
    (∀ r ∈ kept, s.hasElement r = true) ∧ kept.Nodup := by
  by_cases hall : ∀ r ∈ found, s.hasElement r = true
  · rw [requireElement_of_all hlive hall] at h
    obtain rfl := Except.ok.inj h
    exact ⟨hall, hnodup⟩
  · have hmissing : ∃ r ∈ found, s.hasElement r = false := by simpa using hall
    obtain ⟨_, _, _, herror⟩ := requireElement_of_missing hlive hmissing
    rw [herror] at h
    exact absurd h (by simp)

theorem elements_of_nearestDescendant (hs : s.IsForest) (hlive : ∀ r ∈ found, s.contains r = true)
    {tolerateMissing : Bool} {kept : List Ref}
    (h : s.applyRule found (.nearestDescendant tolerateMissing) = .ok kept) :
    (∀ r ∈ kept, s.hasElement r = true) ∧ kept.Nodup := by
  obtain ⟨elements, helements, rfl⟩ := map_eq_ok_iff.mp h
  refine ⟨fun e he => ?_, nodup_eraseDups elements⟩
  obtain ⟨r, hr, hbelow⟩ := exists_of_mem_toElements helements (List.mem_eraseDups.mp he)
  exact (elementBelow?_eq_some hs (hlive r hr) hbelow).1

/-- What the element rules make of the finds of a search, from the result under each rule. -/
structure RulesApply (s : Scene) (found : List Ref)
    (result : ElementRule → Except Fault (List Ref)) : Prop where
  /-- what a find gives way to is the nearest element below it, and there is one unless all below it
  are without -/
  below : ∀ r ∈ found, (∀ e, s.elementBelow? r = some e → s.IsNearest r e) ∧
    (s.elementBelow? r = none → ∀ e, s.hasElement e = true → ¬s.ClimbsTo e r)
  require_all : (∀ r ∈ found, s.hasElement r = true) → result .requireElement = .ok found
  require_missing : (∃ r ∈ found, s.hasElement r = false) →
    ∃ r ∈ found, s.hasElement r = false ∧
      result .requireElement = .error (.search (.virtualNode (s.describe r)))
  nearest_tolerant :
    result (.nearestDescendant true) = .ok (found.filterMap s.elementBelow?).eraseDups
  nearest_all : (∀ r ∈ found, s.elementBelow? r ≠ none) →
    result (.nearestDescendant false) = .ok (found.filterMap s.elementBelow?).eraseDups
  nearest_missing : (∃ r ∈ found, s.elementBelow? r = none) →
    ∃ r ∈ found, s.elementBelow? r = none ∧
      result (.nearestDescendant false) = .error (.search (.noElementBelow (s.describe r)))
  /-- only the logical rule keeps a find without an element -/
  elements : ∀ rule kept, rule ≠ .logical → result rule = .ok kept →
    (∀ r ∈ kept, s.hasElement r = true) ∧ kept.Nodup
  /-- an element gives way to nothing -/
  nearest_self : (∀ r ∈ found, s.hasElement r = true) →
    ∀ tolerateMissing, result (.nearestDescendant tolerateMissing) = .ok found

/-- The rules, applied to live finds of which none is there twice. -/
theorem rulesApply (hs : s.IsForest) (hlive : ∀ r ∈ found, s.contains r = true)
    (hnodup : found.Nodup) :
    s.RulesApply found fun rule => (s.applyRule found rule).mapError .search := by
  constructor
  case below =>
    intro r hr
    exact ⟨fun e => elementBelow?_eq_some hs (hlive r hr),
      fun hnone e => elementBelow?_eq_none hs (hlive r hr) hnone⟩
  case require_all => exact fun hall => by rw [requireElement_of_all hlive hall]; rfl
  case require_missing =>
    intro hmissing
    obtain ⟨r, hr, hvirtual, herror⟩ := requireElement_of_missing hlive hmissing
    exact ⟨r, hr, hvirtual, by rw [herror]; rfl⟩
  case nearest_tolerant => rw [applyRule, toElements_true]; rfl
  case nearest_all => exact fun hall => by rw [applyRule, toElements_of_all hall]; rfl
  case nearest_missing =>
    intro hmissing
    obtain ⟨r, hr, hnone, herror⟩ := toElements_of_missing hmissing
    exact ⟨r, hr, hnone, by rw [applyRule, herror]; rfl⟩
  case elements =>
    intro rule kept hrule hkept
    rw [mapError_eq_ok_iff] at hkept
    cases rule with
    | logical => exact absurd rfl hrule
    | requireElement => exact elements_of_requireElement hlive hnodup hkept
    | nearestDescendant tolerateMissing => exact elements_of_nearestDescendant hs hlive hkept
  case nearest_self =>
    intro hall tolerateMissing
    rw [applyRule_of_all hall hnodup]
    rfl

/-! ## Searches -/

/-- All rules start from the finds of the logical one. -/
theorem search_of_logical {path : List Step} {scope : Scope} {strict : Bool}
    (h : s.search path scope { element := .logical, strictIndex := strict } = .ok found)
    (rule : ElementRule) :
    s.search path scope { element := rule, strictIndex := strict } =
      (s.applyRule found rule).mapError .search := by
  rw [search, search_logical_iff.mp h]
  rfl

/-- Where all finds have elements it does not matter which rule is in force. -/
theorem search_eq_logical {path : List Step} {scope : Scope} {strict : Bool}
    (h : ∀ found, s.search path scope { element := .logical, strictIndex := strict } = .ok found →
      ∀ r ∈ found, s.hasElement r = true) (rule : ElementRule) :
    s.search path scope { element := rule, strictIndex := strict } =
      s.search path scope { element := .logical, strictIndex := strict } := by
  cases hfind : Area.find ⟨s, scope.tops s⟩ strict path with
  | error cause => rw [search, search, hfind]; rfl
  | ok found =>
    have hlogical := search_logical_iff.mpr hfind
    obtain ⟨-, hnodup⟩ := Area.live_nodup_find hfind
    rw [search_of_logical hlogical, hlogical, applyRule_of_all (h found hlogical) hnodup]
    rfl

/-- **What every element rule makes of a search, from what the search finds under the logical rule; and
a search for an element finds the nearest element of the first find that has one.** -/
theorem search_elements (hs : s.IsForest) {path : List Step} {scope : Scope} {strict : Bool}
    (hfound : s.search path scope { element := .logical, strictIndex := strict } = .ok found) :
    (s.RulesApply found fun rule =>
      s.search path scope { element := rule, strictIndex := strict }) ∧
    ∀ (host : Host) (text : String), host.scene = some s → Host.readPath text = .ok path →
      scope = .everywhere →
      host.findElement { element := .logical, strictIndex := strict } text =
        .ok (found.findSome? s.elementBelow?) := by
  have hrules : s.RulesApply found fun rule =>
      s.search path scope { element := rule, strictIndex := strict } := by
    obtain ⟨hlive, hnodup⟩ := Area.live_nodup_find (search_logical_iff.mp hfound)
    simp only [search_of_logical hfound]
    exact rulesApply hs hlive hnodup
  refine ⟨hrules, ?_⟩
  rintro host text hhost hread rfl
  have hfinds : host.findAll { element := .nearestDescendant true, strictIndex := strict } text
      .everywhere = .ok (found.filterMap s.elementBelow?).eraseDups := by
    rw [Host.findAll, hread, ← hrules.nearest_tolerant]
    show host.search _ path .everywhere = _
    rw [Host.search, Host.tryRead, Host.read, hhost]
    rfl
  rw [Host.findElement, Host.elementRules, Host.findFirst, hfinds]
  show Except.ok (found.filterMap s.elementBelow?).eraseDups.head? = _
  rw [head?_eraseDups, List.head?_filterMap]

/-- Two nested boxes around a button, and a box around nothing. -/
theorem search_elements_boxes :
    let button := Snapshot.node { tag := some "button", element := some {} } []
    let box : List Snapshot → Snapshot := .node { tag := some "box" }
    let roots := [("main", Snapshot.node { tag := some "form" } [box [box [button]], box []])]
    let s := (Scene.ofSnapshots roots).toOption.getD {}
    let host : Host := { scene := some s }
    let path : List Step := [{ mode := .any, tag := some (.named "box") }]
    let found : List Ref := [⟨1⟩, ⟨2⟩, ⟨4⟩]
    s.IsForest ∧ Host.readPath "~box" = .ok path ∧ s.search path .everywhere {} = .ok found ∧
      s.RulesApply found (fun rule => s.search path .everywhere { element := rule }) ∧
      s.search path .everywhere { element := .nearestDescendant true } = .ok [⟨3⟩] ∧
      host.findElement {} "~box" = .ok (found.findSome? s.elementBelow?) := by
  intro button box roots s host path found
  have hs : s.IsForest := isForest_ofSnapshots roots
  have hread : Host.readPath "~box" = .ok path := by decide +kernel
  have hfound : s.search path .everywhere {} = .ok found := by decide +kernel
  have hnearest : s.search path .everywhere { element := .nearestDescendant true } =
      .ok [⟨3⟩] := by decide +kernel
  obtain ⟨hrules, hfirst⟩ := search_elements hs hfound
  exact ⟨hs, hread, hfound, hrules, hnearest, hfirst host "~box" rfl hread rfl⟩

end Scene

end SceneSelect
