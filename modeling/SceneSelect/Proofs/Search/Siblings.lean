import Mathlib.Algebra.Group.Nat.Defs
import SceneSelect.Proofs.Path.Append
import SceneSelect.Proofs.Path.Parsed
import SceneSelect.Proofs.Search.Acceptance
import SceneSelect.Proofs.Search.Inner

/-!
# `Proofs/Search/Siblings.lean` — to a sibling and back

A sibling step goes a number of places along the list that a node is on. A step as far the other way goes
back, for no node is on a list twice. It goes back to every node that the first step could start from, unless
that is a text leaf, which no step of this kind finds; but a search of the whole scene never comes to a text
leaf (`Area.isOpen_find`). Different nodes have different siblings, so it does not matter either that each
find is kept once.

> **A search that goes `n` places along and `n` places back finds what it had found before, in the same
> order, but for the nodes that have no structured sibling there** (`findAll_there_and_back`).

A text leaf in between does not count but for its place on the list.
-/

set_option autoImplicit false

namespace SceneSelect

open SceneSelect.Path

namespace Scene

variable {s : Scene} {r r' c p found : Ref} {d : Int}

/-- The second node stands `d` places behind the first on the list of children that both are on. -/
def SiblingAt (s : Scene) (d : Int) (r c : Ref) : Prop :=
  ∃ p, s.parent? r = some p ∧
    ∃ i j : Nat, (s.children p)[i]? = some r ∧ (s.children p)[j]? = some c ∧ (j : Int) = i + d

/-- A structured node stands `d` places behind this one. -/
def HasInnerAt (s : Scene) (d : Int) (r : Ref) : Prop := ∃ c, s.SiblingAt d r c ∧ s.IsInner c

instance (s : Scene) (d : Int) (r : Ref) : Decidable (s.HasInnerAt d r) :=
  decidable_of_iff
    (∃ p ∈ s.parent? r, ∃ i < (s.children p).length, ∃ j < (s.children p).length,
      ((s.children p)[i]? = some r ∧ (j : Int) = i + d) ∧
        ∃ c ∈ (s.children p)[j]?, s.IsInner c) <| by
    constructor
    · rintro ⟨p, hp, i, -, j, -, ⟨hi, hij⟩, c, hj, hinner⟩
      exact ⟨c, ⟨p, hp, i, j, hi, hj, hij⟩, hinner⟩
    · rintro ⟨c, ⟨p, hp, i, j, hi, hj, hij⟩, hinner⟩
      obtain ⟨hilt, -⟩ := List.getElem?_eq_some_iff.mp hi
      obtain ⟨hjlt, -⟩ := List.getElem?_eq_some_iff.mp hj
      exact ⟨p, hp, i, hilt, j, hjlt, ⟨hi, hij⟩, c, hj, hinner⟩

/-! ## Places on a list -/

/-- No node is on a list at two places. -/
theorem IsForest.eq_of_place (hs : s.IsForest) {i j : Nat} (hi : (s.children p)[i]? = some r)
    (hj : (s.children p)[j]? = some r) : i = j := by
  obtain ⟨hlt, -⟩ := List.getElem?_eq_some_iff.mp hi
  exact (List.getElem?_inj hlt (hs.children_nodup p)).mp (hi.trans hj.symm)

namespace SiblingAt

theorem back (hs : s.IsForest) (h : s.SiblingAt d r c) : s.SiblingAt (-d) c r := by
  obtain ⟨p, hp, i, j, hi, hj, hij⟩ := h
  have hc := (hs.children_live p c (List.mem_of_getElem? hj)).2
  exact ⟨p, hc, j, i, hj, hi, by omega⟩

/-- There is one node at a place. -/
theorem unique (hs : s.IsForest) {c' : Ref} (h : s.SiblingAt d r c) (h' : s.SiblingAt d r c') :
    c = c' := by
  obtain ⟨p, hp, i, j, hi, hj, hij⟩ := h
  obtain ⟨p', hp', i', j', hi', hj', hij'⟩ := h'
  obtain rfl := Option.some.inj (hp.symm.trans hp')
  have hsame := hs.eq_of_place hi hi'
  obtain rfl : j = j' := by omega
  exact Option.some.inj (hj.symm.trans hj')

/-- Different nodes have different siblings. -/
theorem injective (hs : s.IsForest) (h : s.SiblingAt d r c) (h' : s.SiblingAt d r' c) : r = r' :=
  (h.back hs).unique hs (h'.back hs)

end SiblingAt

theorem placeInParent?_eq_some_iff (hs : s.IsForest) {i : Nat} :
    s.placeInParent? r = some (p, i) ↔ s.parent? r = some p ∧ (s.children p)[i]? = some r := by
  have hplace : s.placeInParent? r = some (p, i) ↔
      s.parent? r = some p ∧ (s.children p).idxOf? r = some i := by
    rw [placeInParent?, Option.bind_eq_bind, Option.bind_eq_some_iff]
    constructor
    · rintro ⟨q, hq, h⟩
      obtain ⟨k, hk, h⟩ := Option.bind_eq_some_iff.mp h
      obtain ⟨rfl, rfl⟩ := Prod.mk.inj (Option.some.inj h)
      exact ⟨hq, hk⟩
    · rintro ⟨hp, hi⟩
      exact ⟨p, hp, Option.bind_eq_some_iff.mpr ⟨i, hi, rfl⟩⟩
  rw [hplace]
  refine and_congr_right fun _ => ?_
  rw [List.idxOf?_eq_some_iff]
  constructor
  · rintro ⟨hlt, heq, -⟩
    exact List.getElem?_eq_some_iff.mpr ⟨hlt, heq⟩
  · intro hi
    obtain ⟨hlt, heq⟩ := List.getElem?_eq_some_iff.mp hi
    refine ⟨hlt, heq, fun j hj hother => Nat.ne_of_lt hj ?_⟩
    exact hs.eq_of_place (List.getElem?_eq_some_iff.mpr ⟨Nat.lt_trans hj hlt, hother⟩) hi

/-! ## The step -/

/-- A step that goes to a sibling and asks nothing of it. -/
theorem accept?_sibling (offset : Int32) :
    s.accept? { sibling := offset } r = some found ↔ s.IsInner r ∧ found = r := by
  rw [accept?_eq_some]
  simp [Accepts, passes, IsInner, Step.isTextFree]

/-- Where all roots are top nodes, the step goes to any structured sibling at its distance. -/
theorem sibling?_eq_some_iff (hs : s.IsForest) (offset : Int32) :
    Area.sibling? ⟨s, s.rootRefs⟩ { sibling := offset } r = some c ↔
      s.SiblingAt offset.toInt r c ∧ s.IsInner c := by
  rw [Area.sibling?]
  constructor
  · intro h
    split at h
    · exact absurd h (by simp)
    · obtain ⟨⟨p, i⟩, hplace, h⟩ := Option.bind_eq_some_iff.mp h
      dsimp only at h
      split at h
      · exact absurd h (by simp)
      · rename_i hnonneg
        obtain ⟨sibling, hsibling, haccept⟩ := Option.bind_eq_some_iff.mp h
        obtain ⟨hinner, rfl⟩ := (accept?_sibling offset).mp haccept
        obtain ⟨hp, hi⟩ := (placeInParent?_eq_some_iff hs).mp hplace
        exact ⟨⟨p, hp, i, _, hi, hsibling, by omega⟩, hinner⟩
  · rintro ⟨⟨p, hp, i, j, hi, hj, hij⟩, hinner⟩
    have hroot : r ∉ s.rootRefs := by
      intro hmem
      exact absurd (((hs.mem_roots r).mp hmem).2.symm.trans hp) (by simp)
    rw [if_neg hroot, (placeInParent?_eq_some_iff hs).mpr ⟨hp, hi⟩]
    show (if (i : Int) + offset.toInt < 0 then none else _) = _
    rw [← hij, if_neg (by omega), Int.toNat_natCast, hj]
    exact (accept?_sibling offset).mpr ⟨hinner, rfl⟩

end Scene

namespace Area

variable {s : Scene} {strict : Bool} {found : List Ref}

/-- The siblings of different nodes are different. -/
theorem nodup_siblings (hs : s.IsForest) (hfound : found.Nodup) (offset : Int32) :
    (found.filterMap (Area.sibling? ⟨s, s.rootRefs⟩ { sibling := offset })).Nodup := by
  refine List.Nodup.filterMap (fun r r' c hr hr' => ?_) hfound
  have h := ((Scene.sibling?_eq_some_iff hs offset).mp hr).1
  exact h.injective hs ((Scene.sibling?_eq_some_iff hs offset).mp hr').1

/-- A sibling step takes each find to its sibling, if that is there. -/
theorem next_sibling (hs : s.IsForest) (hfound : found.Nodup) {offset : Int32} (hne : offset ≠ 0) :
    Area.next ⟨s, s.rootRefs⟩ strict found { sibling := offset } =
      .ok (found.filterMap (Area.sibling? ⟨s, s.rootRefs⟩ { sibling := offset })) := by
  by_cases hempty : found = []
  · rw [hempty]
    rfl
  · have hreach : (found.map Origin.node).flatMap
        (Area.reach ⟨s, s.rootRefs⟩ { sibling := offset } none) =
          found.filterMap (Area.sibling? ⟨s, s.rootRefs⟩ { sibling := offset }) := by
      rw [List.flatMap_map, List.filterMap_eq_flatMap_toList]
      refine List.flatMap_congr fun r _ => ?_
      rw [Area.reach, if_neg hne]
    rw [next_of_ne_nil hempty, Area.follow]
    show Area.slice strict { sibling := offset } ((found.map Origin.node).flatMap
      (Area.reach ⟨s, s.rootRefs⟩ { sibling := offset } none)).eraseDups = _
    rw [hreach, eraseDups_of_nodup (nodup_siblings hs hfound offset)]
    rfl

/-- There and back: what is left are the nodes with a structured sibling there. -/
theorem filterMap_there_and_back (hs : s.IsForest) (hinner : ∀ r ∈ found, s.IsInner r)
    {there back : Int32} (hback : back.toInt = -there.toInt) :
    (found.filterMap (Area.sibling? ⟨s, s.rootRefs⟩ { sibling := there })).filterMap
        (Area.sibling? ⟨s, s.rootRefs⟩ { sibling := back }) =
      found.filter fun r => s.HasInnerAt there.toInt r := by
  rw [List.filterMap_filterMap, ← List.filterMap_eq_filter]
  refine List.filterMap_congr fun r hr => ?_
  cases hthere : Area.sibling? ⟨s, s.rootRefs⟩ { sibling := there } r with
  | none =>
    have hnone : ¬s.HasInnerAt there.toInt r := by
      rintro ⟨c, hc⟩
      exact absurd (hthere.symm.trans ((Scene.sibling?_eq_some_iff hs there).mpr hc)) (by simp)
    simp [Option.guard, hnone]
  | some c =>
    obtain ⟨hc, hcinner⟩ := (Scene.sibling?_eq_some_iff hs there).mp hthere
    have hsome : s.HasInnerAt there.toInt r := ⟨c, hc, hcinner⟩
    rw [Option.bind_some, (Scene.sibling?_eq_some_iff hs back).mpr ⟨hback ▸ hc.back hs, hinner r hr⟩]
    simp [Option.guard, hsome]

/-- Two steps more, there and back. -/
theorem find_there_and_back (hs : s.IsForest) {path : List Step} (hpath : path ≠ [])
    {there back : Int32} (hthere : there ≠ 0) (hback : back.toInt = -there.toInt) :
    Area.find ⟨s, s.rootRefs⟩ strict (path ++ [{ sibling := there }, { sibling := back }]) =
      (Area.find ⟨s, s.rootRefs⟩ strict path).map fun found =>
        found.filter fun r => s.HasInnerAt there.toInt r := by
  have hback0 : back ≠ 0 := by
    rintro rfl
    exact hthere (Int32.toInt_inj.mp (by simpa using hback.symm))
  rw [List.append_cons, find_concat (by simp), find_concat hpath]
  cases hfind : Area.find ⟨s, s.rootRefs⟩ strict path with
  | error cause => rfl
  | ok found =>
    have hinner : ∀ r ∈ found, s.IsInner r :=
      fun r hr => (isOpen_find hs (isOpen_roots hs) hfind r hr).isInner
    have hnodup := (live_nodup_find hfind).2
    show (Area.next ⟨s, s.rootRefs⟩ strict found { sibling := there }).bind _ = Except.ok _
    rw [next_sibling hs hnodup hthere]
    show Area.next ⟨s, s.rootRefs⟩ strict _ { sibling := back } = Except.ok _
    rw [next_sibling hs (nodup_siblings hs hnodup there) hback0,
      filterMap_there_and_back hs hinner hback]

end Area

/-! ## Searches -/

namespace Host

variable {h : Host} {s : Scene} {text : String} {path : List Step}

/-- Behind a path, the texts of a sibling step and of one as far the other way. -/
theorem findAll_of_steps (hscene : h.scene = some s) (hs : s.IsForest)
    (hread : readPath text = .ok path) (strict : Bool) {out home : String} {there back : Int32}
    (hout : parse out = .ok [{ sibling := there }]) (hhome : parse home = .ok [{ sibling := back }])
    (hthere : there ≠ 0) (hback : back.toInt = -there.toInt) :
    h.findAll { element := .logical, strictIndex := strict } (text ++ "/" ++ out ++ "/" ++ home)
        .everywhere =
      (h.findAll { element := .logical, strictIndex := strict } text .everywhere).map fun found =>
        found.filter fun r => s.HasInnerAt there.toInt r := by
  have hparse : parse text = .ok path := mapError_eq_ok_iff.mp hread
  have hlonger : readPath (text ++ "/" ++ out ++ "/" ++ home) =
      .ok (path ++ [{ sibling := there }, { sibling := back }]) := by
    rw [readPath, parse_append (parse_append hparse hout) hhome, List.append_assoc]
    rfl
  rw [findAll_eq hscene hlonger, findAll_eq hscene hread, Scene.search, Scene.search]
  show Except.mapError _ (Except.bind (Area.find ⟨s, s.rootRefs⟩ strict _) _) =
    Except.map _ (Except.mapError _ (Except.bind (Area.find ⟨s, s.rootRefs⟩ strict _) _))
  rw [Area.find_there_and_back hs (wellFormed_of_parse hparse).1 hthere hback]
  cases Area.find ⟨s, s.rootRefs⟩ strict path <;> rfl

/-- **A search that goes `n` places along and then `n` places back keeps, of what it had found before, the
nodes with a structured sibling there, in the same order; and so does one that goes back first.** -/
theorem findAll_there_and_back (hscene : h.scene = some s) (hs : s.IsForest)
    (hread : readPath text = .ok path) (strict : Bool) {n : Nat} (hpos : 0 < n)
    (hlt : n < 2 ^ 31) :
    let rules : FindRules := { element := .logical, strictIndex := strict }
    let ahead := ">" ++ toString n ++ ">"
    let back := "<" ++ toString n ++ "<"
    h.findAll rules (text ++ "/" ++ ahead ++ "/" ++ back) .everywhere =
        (h.findAll rules text .everywhere).map (fun found =>
          found.filter fun r => s.HasInnerAt n r) ∧
      h.findAll rules (text ++ "/" ++ back ++ "/" ++ ahead) .everywhere =
        (h.findAll rules text .everywhere).map fun found =>
          found.filter fun r => s.HasInnerAt (-n) r := by
  intro rules ahead back
  have hn : (Int32.ofNat n).toInt = n := Int32.toInt_ofNat_of_lt hlt
  have hneg : (-Int32.ofNat n).toInt = -(n : Int) := toInt_neg_distance hlt
  have hne : Int32.ofNat n ≠ 0 := by
    intro hzero
    rw [hzero, Int32.toInt_zero] at hn
    omega
  have hnegne : -Int32.ofNat n ≠ 0 := by
    intro hzero
    rw [hzero, Int32.toInt_zero] at hneg
    omega
  have hahead := parse_ahead hpos hlt
  have hback := parse_back hpos hlt
  have hforth := findAll_of_steps hscene hs hread strict hahead hback hne (by omega)
  have hfro := findAll_of_steps hscene hs hread strict hback hahead hnegne (by omega)
  rw [hn] at hforth
  rw [hneg] at hfro
  exact ⟨hforth, hfro⟩

/-- Three items of a list, with a text leaf in front of the last. Two places from the first is the text leaf,
so only the second is found again, and of the way back and forth only the last. -/
theorem findAll_there_and_back_items :
    let item := Snapshot.node { tag := some "li" } []
    let note := Snapshot.node { text := some "note" } []
    let roots := [("main", Snapshot.node { tag := some "ul" } [item, item, note, item])]
    let s := (Scene.ofSnapshots roots).toOption.getD {}
    let host : Host := { scene := some s }
    let path : List Step := [{ mode := .any, tag := some (.named "li") }]
    let rules : FindRules := { element := .logical, strictIndex := true }
    s.IsForest ∧ readPath "~li" = .ok path ∧
      host.findAll rules "~li" .everywhere = .ok [⟨1⟩, ⟨2⟩, ⟨4⟩] ∧
      host.findAll rules "~li/>2>/<2<" .everywhere = .ok [⟨2⟩] ∧
      host.findAll rules "~li/<2</>2>" .everywhere = .ok [⟨4⟩] := by
  intro item note roots s host path rules
  have hs : s.IsForest := Scene.isForest_ofSnapshots roots
  have hread : readPath "~li" = .ok path := by decide +kernel
  have hfound : host.findAll rules "~li" .everywhere = .ok [⟨1⟩, ⟨2⟩, ⟨4⟩] := by decide +kernel
  have hahead : ([⟨1⟩, ⟨2⟩, ⟨4⟩] : List Ref).filter (fun r => s.HasInnerAt (2 : Nat) r) = [⟨2⟩] := by
    decide +kernel
  have hback : ([⟨1⟩, ⟨2⟩, ⟨4⟩] : List Ref).filter (fun r => s.HasInnerAt (-(2 : Nat)) r) = [⟨4⟩] := by
    decide +kernel
  obtain ⟨hforth, hfro⟩ :=
    findAll_there_and_back (h := host) rfl hs hread true (n := 2) (by decide) (by decide)
  rw [hfound] at hforth hfro
  refine ⟨hs, hread, hfound, ?_, ?_⟩
  · exact hforth.trans (congrArg Except.ok hahead)
  · exact hfro.trans (congrArg Except.ok hback)

end Host

end SceneSelect
