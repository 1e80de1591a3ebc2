import SceneSelect.Proofs.Scene.Twin
import SceneSelect.Proofs.Search.Confinement
import SceneSelect.Proofs.Search.Elements

/-!
# `Proofs/Search/Twin.lean` — a search of a root sees its shape and nothing else

Everything that a search of one root reads, it reads off nodes of that root, and a renaming of these
nodes goes through every part of it: through the tests of a step, the moves down, up and sideways, the
picking by index, the faults and the element rules.

> **If two roots have the same shape, a search of the one finds what corresponds to the finds of a
> search of the other, one by one in the same order; or both are refused, for the same reason**
> (`search_of_sameShape`).

So neither the other roots of a scene nor the slots that its nodes happen to be in have any influence.
-/

set_option autoImplicit false

namespace SceneSelect

open SceneSelect.Path

/-! ## Renaming -/

/-- The starting point that corresponds to a starting point. -/
def Origin.map (f : Ref → Ref) : Origin → Origin
  | .above => .above
  | .node r => .node (f r)

theorem Path.Position.pick_map {α β : Type} (p : Position) (f : α → β) (items : List α) :
    p.pick (items.map f) = (p.pick items).map f := by
  rw [pick, pick, List.length_map]
  cases p.index? items.length with
  | none => rfl
  | some i =>
    show ((items.map f)[i]?).toList = (items[i]?.toList).map f
    rw [List.getElem?_map, Option.toList_map]

theorem Area.slice_map (strict : Bool) (step : Step) (f : Ref → Ref) (found : List Ref) :
    slice strict step (found.map f) = (slice strict step found).map (List.map f) := by
  rw [slice, slice, List.length_map]
  cases step.soleIndex? with
  | none => rfl
  | some p =>
    dsimp only
    rw [p.pick_map]
    cases p.pick found with
    | nil => cases strict <;> rfl
    | cons r rest => rfl

namespace Scene.Twins

variable {f : Ref → Ref} {s t : Scene} {a b r : Ref}

/-! ## The tests of a step -/

theorem hasTextBelow (h : Twins f s a t b) (hr : s.ClimbsTo r a) (test : ValueTest) :
    t.hasTextBelow test t.levels (f r) = s.hasTextBelow test s.levels r := by
  refine h.induction_levels
    (P := fun n m r => t.hasTextBelow test m (f r) = s.hasTextBelow test n r) ?_ hr
  intro n m r hr ih
  rw [Scene.hasTextBelow, Scene.hasTextBelow, h.children r hr, List.any_map, Bool.eq_iff_iff,
    List.any_eq_true, List.any_eq_true]
  refine exists_congr fun c => and_congr_right fun hc => ?_
  obtain ⟨node, node', hnode, hnode', hlabel, -⟩ := h.nodes (h.child hr hc)
  simp only [Function.comp_apply, hnode, hnode', hlabel, ih c hc]

theorem resolve (h : Twins f s a t b) (hr : s.ClimbsTo r a) (filter : Filter) :
    t.resolve? (f r) filter = (s.resolve? r filter).map f := by
  cases filter with
  | text test =>
    rw [resolve?, resolve?, h.contains hr, h.hasTextBelow hr, h.elementAbove hr]
    split <;> rfl
  | _ =>
    simp only [resolve?, h.contains hr, h.read_attribute hr, h.read_data hr]
    split <;> rfl

theorem inside_resolve (h : Twins f s a t b) (hr : s.ClimbsTo r a) {filter : Filter} {q : Ref}
    (hq : s.resolve? r filter = some q) : s.ClimbsTo q a := by
  rcases resolve?_cases hq with rfl | ⟨-, habove⟩
  · exact hr
  · exact h.up hr (climbsTo_elementAbove habove)

theorem resolveAll (h : Twins f s a t b) (hr : s.ClimbsTo r a) (filters : List Filter) :
    t.resolveAll? (f r) filters = (s.resolveAll? r filters).map f := by
  have fold : ∀ (filters : List Filter) (sofar : Ref),
      filters.foldlM (fun sofar filter =>
        (t.resolve? (f r) filter).map fun q => if q = f r then sofar else q) (f sofar) =
      (filters.foldlM (fun sofar filter =>
        (s.resolve? r filter).map fun q => if q = r then sofar else q) sofar).map f := by
    intro filters
    induction filters with
    | nil => exact fun sofar => rfl
    | cons filter rest ih =>
      intro sofar
      rw [List.foldlM_cons, List.foldlM_cons, h.resolve hr]
      cases hq : s.resolve? r filter with
      | none => rfl
      | some q =>
        have hsame : (if f q = f r then f sofar else f q) = f (if q = r then sofar else q) := by
          rw [apply_ite f]
          simp only [h.eq_iff (h.inside_resolve hr hq) hr]
        show rest.foldlM _ (if f q = f r then f sofar else f q) = _
        rw [hsame]
        exact ih _
  exact fold filters r

theorem accept (h : Twins f s a t b) (hr : s.ClimbsTo r a) (step : Step) :
    t.accept? step (f r) = (s.accept? step r).map f := by
  obtain ⟨node, node', hnode, hnode', hlabel, -⟩ := h.nodes hr
  have htext : node'.isText = node.isText := congrArg Label.isText hlabel
  have hpasses : passes step node' = passes step node := by
    unfold passes
    rw [hlabel]
  rw [accept?, accept?, hnode, hnode']
  dsimp only
  rw [htext, hpasses, h.resolveAll hr]
  split <;> rfl

/-! ## The moves of a search -/

variable {step : Step}

/-- What goes through a descent at each node goes through the descent at all of them. -/
theorem exactBelow_map {n m : Nat} {rs : List Ref}
    (h : ∀ c ∈ rs, t.exactBelow step m [f c] = (s.exactBelow step n [c]).map f) :
    t.exactBelow step m (rs.map f) = (s.exactBelow step n rs).map f := by
  rw [exactBelow_eq_flatMap t, exactBelow_eq_flatMap s, List.flatMap_map, List.map_flatMap]
  exact List.flatMap_congr h

theorem anyBelow_map {n m : Nat} {rs : List Ref}
    (h : ∀ c ∈ rs, t.anyBelow step m [f c] = (s.anyBelow step n [c]).map f) :
    t.anyBelow step m (rs.map f) = (s.anyBelow step n rs).map f := by
  rw [anyBelow_eq_flatMap t, anyBelow_eq_flatMap s, List.flatMap_map, List.map_flatMap]
  exact List.flatMap_congr h

/-- Both descents at once, since the one through all nodes goes on as the other below a find. -/
theorem below (h : Twins f s a t b) (hr : s.ClimbsTo r a) :
    t.exactBelow step t.levels [f r] = (s.exactBelow step s.levels [r]).map f ∧
      t.anyBelow step t.levels [f r] = (s.anyBelow step s.levels [r]).map f := by
  refine h.induction_levels (P := fun n m r =>
    t.exactBelow step m [f r] = (s.exactBelow step n [r]).map f ∧
      t.anyBelow step m [f r] = (s.anyBelow step n [r]).map f) ?_ hr
  intro n m r hr ih
  obtain ⟨node, node', hnode, hnode', hlabel, hchildren⟩ := h.nodes hr
  rw [children_of_node hnode] at ih
  have hexact : t.exactBelow step m node'.children =
      (s.exactBelow step n node.children).map f :=
    hchildren ▸ exactBelow_map fun c hc => (ih c hc).1
  have hany : t.anyBelow step m node'.children = (s.anyBelow step n node.children).map f :=
    hchildren ▸ anyBelow_map fun c hc => (ih c hc).2
  have htext : node'.isText = node.isText := congrArg Label.isText hlabel
  rw [exactBelow_node hnode, exactBelow_node hnode', anyBelow_node hnode, anyBelow_node hnode',
    h.accept hr, hexact, hany, htext, hlabel]
  constructor
  · cases node.isText with
    | true => rfl
    | false =>
      cases s.accept? step r with
      | none => cases node.tag.isNone <;> rfl
      | some found => rfl
  · cases node.isText with
    | true => rfl
    | false => cases s.accept? step r <;> rfl

theorem mem_tops (h : Twins f s a t b) (hr : s.ClimbsTo r a) : f r ∈ [b] ↔ r ∈ [a] := by
  rw [List.mem_singleton, List.mem_singleton, ← h.map_root, h.eq_iff hr .refl]

theorem firstAbove (h : Twins f s a t b) {rs : List Ref} (hrs : ∀ q ∈ rs, s.ClimbsTo q a) :
    Area.firstAbove? ⟨t, [b]⟩ step (rs.map f) = (Area.firstAbove? ⟨s, [a]⟩ step rs).map f := by
  induction rs with
  | nil => rfl
  | cons q rest ih =>
    obtain ⟨hq, hrest⟩ := List.forall_mem_cons.mp hrs
    rw [List.map_cons, Area.firstAbove?, Area.firstAbove?]
    dsimp only
    rw [h.accept hq]
    cases s.accept? step q with
    | some found => rfl
    | none =>
      simp only [h.mem_tops hq, ih hrest, Option.map_none]
      split <;> rfl

theorem ancestor (h : Twins f s a t b) (hr : s.ClimbsTo r a) :
    Area.ancestor? ⟨t, [b]⟩ step (f r) = (Area.ancestor? ⟨s, [a]⟩ step r).map f := by
  have habove : ∀ q ∈ s.ancestors r, s.ClimbsTo q a :=
    fun q hq => h.up hr (climbsTo_of_mem_climb hq)
  have hparent : ((s.parent? r).map f).bind (t.accept? step) =
      ((s.parent? r).bind (s.accept? step)).map f := by
    cases hp : s.parent? r with
    | none => rfl
    | some p => exact h.accept (h.up hr (.single hp)) step
  simp only [Area.ancestor?, h.mem_tops hr, h.ancestors hr, h.firstAbove habove, h.parent hr, hparent]
  split
  · rfl
  · split <;> rfl

theorem sibling (h : Twins f s a t b) (hr : s.ClimbsTo r a) :
    Area.sibling? ⟨t, [b]⟩ step (f r) = (Area.sibling? ⟨s, [a]⟩ step r).map f := by
  simp only [Area.sibling?, h.mem_tops hr, h.place hr]
  split
  · rfl
  · cases hplace : s.placeInParent? r with
    | none => rfl
    | some place =>
      have hp : s.ClimbsTo place.1 a := h.up hr (.single (parent_of_place hplace))
      simp only [Option.map_some, Option.bind_eq_bind, Option.bind_some]
      split
      · rfl
      · rw [h.children _ hp, List.getElem?_map]
        cases hlisted : (s.children place.1)[((place.2 : Int) + step.sibling.toInt).toNat]? with
        | none => rfl
        | some c => exact h.accept (h.child hp (List.mem_of_getElem? hlisted)) step

/-- The children of a starting point inside are inside, and correspond to those of the other. -/
theorem children_origin (h : Twins f s a t b) {origin : Origin}
    (horigin : Area.Holds ⟨s, [a]⟩ origin) :
    Area.children ⟨t, [b]⟩ (origin.map f) = (Area.children ⟨s, [a]⟩ origin).map f ∧
      ∀ c ∈ Area.children ⟨s, [a]⟩ origin, s.ClimbsTo c a := by
  cases origin with
  | above =>
    exact ⟨congrArg (fun r => [r]) h.map_root.symm, fun c hc => List.mem_singleton.mp hc ▸ .refl⟩
  | node r =>
    have hr : s.ClimbsTo r a := Area.covers_singleton.mp horigin
    exact ⟨h.children r hr, fun c hc => h.child hr hc⟩

theorem descend (h : Twins f s a t b) {origin : Origin} (horigin : Area.Holds ⟨s, [a]⟩ origin) :
    Area.descend ⟨t, [b]⟩ step (origin.map f) = (Area.descend ⟨s, [a]⟩ step origin).map f := by
  obtain ⟨hchildren, hinside⟩ := h.children_origin horigin
  unfold Area.descend
  cases step.mode with
  | exact =>
    dsimp only
    rw [hchildren]
    exact exactBelow_map fun c hc => (h.below (hinside c hc)).1
  | any =>
    dsimp only
    rw [hchildren]
    exact anyBelow_map fun c hc => (h.below (hinside c hc)).2
  | ancestor =>
    cases origin with
    | above => rfl
    | node r =>
      show (Area.ancestor? ⟨t, [b]⟩ step (f r)).toList = _
      rw [h.ancestor (Area.covers_singleton.mp horigin)]
      exact Option.toList_map

theorem reach (h : Twins f s a t b) (index : Option Position) {origin : Origin}
    (horigin : Area.Holds ⟨s, [a]⟩ origin) :
    Area.reach ⟨t, [b]⟩ step index (origin.map f) =
      (Area.reach ⟨s, [a]⟩ step index origin).map f := by
  unfold Area.reach
  rw [h.descend horigin]
  split
  · cases index with
    | none => rfl
    | some p => exact p.pick_map f _
  · cases origin with
    | above => rfl
    | node r =>
      show (Area.sibling? ⟨t, [b]⟩ step (f r)).toList = _
      rw [h.sibling (Area.covers_singleton.mp horigin)]
      exact Option.toList_map

/-! ## Steps and paths -/

theorem follow (h : Twins f s a t b) (strict : Bool) (step : Step) {origins : List Origin}
    (horigins : ∀ origin ∈ origins, Area.Holds ⟨s, [a]⟩ origin) :
    Area.follow ⟨t, [b]⟩ strict (origins.map (Origin.map f)) step =
      (Area.follow ⟨s, [a]⟩ strict origins step).map (List.map f) := by
  rw [Area.follow, Area.follow]
  cases Area.childIndex step with
  | error cause => rfl
  | ok index =>
    have hreach : (origins.map (Origin.map f)).flatMap (Area.reach ⟨t, [b]⟩ step index) =
        (origins.flatMap (Area.reach ⟨s, [a]⟩ step index)).map f := by
      rw [List.flatMap_map, List.map_flatMap]
      exact List.flatMap_congr fun origin horigin => h.reach index (horigins origin horigin)
    have hinside : ∀ r ∈ origins.flatMap (Area.reach ⟨s, [a]⟩ step index), s.ClimbsTo r a :=
      fun r hr => climbsTo_of_mem_reach_root h.left_forest h.left_root horigins hr
    show Area.slice strict step _ = (Area.slice strict step _).map _
    rw [hreach, eraseDups_map (h.injOn hinside), Area.slice_map]

theorem inside_follow (h : Twins f s a t b) {strict : Bool} {origins : List Origin}
    {kept : List Ref} (horigins : ∀ origin ∈ origins, Area.Holds ⟨s, [a]⟩ origin)
    (hkept : Area.follow ⟨s, [a]⟩ strict origins step = .ok kept) : ∀ r ∈ kept, s.ClimbsTo r a := by
  have hsealed := sealed_of_root h.left_forest h.left_root
  intro r hr
  exact Area.covers_singleton.mp
    (Area.covers_follow h.left_forest (Or.inr hsealed) horigins hkept r hr)

theorem next (h : Twins f s a t b) (strict : Bool) (step : Step) {found : List Ref}
    (hfound : ∀ r ∈ found, s.ClimbsTo r a) :
    Area.next ⟨t, [b]⟩ strict (found.map f) step =
        (Area.next ⟨s, [a]⟩ strict found step).map (List.map f) ∧
      ∀ kept, Area.next ⟨s, [a]⟩ strict found step = .ok kept → ∀ r ∈ kept, s.ClimbsTo r a := by
  have horigins : ∀ origin ∈ found.map Origin.node, Area.Holds ⟨s, [a]⟩ origin := by
    intro origin horigin
    obtain ⟨r, hr, rfl⟩ := List.mem_map.mp horigin
    exact Area.covers_singleton.mpr (hfound r hr)
  cases found with
  | nil =>
    refine ⟨rfl, fun kept hkept => ?_⟩
    obtain rfl := Except.ok.inj hkept
    simp
  | cons q rest =>
    have hmap : ((q :: rest).map f).map Origin.node =
        ((q :: rest).map Origin.node).map (Origin.map f) := by
      rw [List.map_map, List.map_map]
      rfl
    refine ⟨?_, fun kept hkept => h.inside_follow horigins hkept⟩
    show Area.follow _ strict (((q :: rest).map f).map .node) step = _
    rw [hmap]
    exact h.follow strict step horigins

theorem foldlM_next (h : Twins f s a t b) (strict : Bool) (rest : List Step) {found : List Ref}
    (hfound : ∀ r ∈ found, s.ClimbsTo r a) :
    rest.foldlM (Area.next ⟨t, [b]⟩ strict) (found.map f) =
      (rest.foldlM (Area.next ⟨s, [a]⟩ strict) found).map (List.map f) := by
  induction rest generalizing found with
  | nil => rfl
  | cons step rest ih =>
    obtain ⟨hnext, hinside⟩ := h.next strict step hfound
    rw [List.foldlM_cons, List.foldlM_cons, hnext]
    cases hkept : Area.next ⟨s, [a]⟩ strict found step with
    | error cause => rfl
    | ok kept => exact ih (hinside kept hkept)

theorem find (h : Twins f s a t b) (strict : Bool) (path : List Step) :
    Area.find ⟨t, [b]⟩ strict path = (Area.find ⟨s, [a]⟩ strict path).map (List.map f) := by
  cases path with
  | nil => rfl
  | cons first rest =>
    have horigins : ∀ origin ∈ [Origin.above], Area.Holds ⟨s, [a]⟩ origin := by simp [Area.Holds]
    have hfollow := h.follow strict first horigins
    rw [Area.find, Area.find]
    show Area.follow _ strict ([Origin.above].map (Origin.map f)) first >>= _ = _
    rw [hfollow]
    cases hkept : Area.follow ⟨s, [a]⟩ strict [.above] first with
    | error cause => rfl
    | ok kept => exact h.foldlM_next strict rest (h.inside_follow horigins hkept)

/-! ## Element rules -/

theorem toElements (h : Twins f s a t b) (tolerateMissing : Bool) {found : List Ref}
    (hfound : ∀ r ∈ found, s.ClimbsTo r a) :
    t.toElements tolerateMissing (found.map f) =
      (s.toElements tolerateMissing found).map (List.map f) := by
  induction found with
  | nil => rfl
  | cons r rest ih =>
    obtain ⟨hr, hrest⟩ := List.forall_mem_cons.mp hfound
    rw [List.map_cons, Scene.toElements, Scene.toElements, h.elementBelow hr, ih hrest,
      h.describe hr]
    cases s.elementBelow? r with
    | some e => cases s.toElements tolerateMissing rest <;> rfl
    | none => cases tolerateMissing <;> rfl

theorem applyRule (h : Twins f s a t b) (rule : ElementRule) {found : List Ref}
    (hfound : ∀ r ∈ found, s.ClimbsTo r a) :
    t.applyRule (found.map f) rule = (s.applyRule found rule).map (List.map f) := by
  cases rule with
  | logical => rfl
  | requireElement =>
    have hfirst : ((found.map f).find? fun r => (t.node? r).any fun n => n.isVirtual) =
        (found.find? fun r => (s.node? r).any fun n => n.isVirtual).map f := by
      rw [List.find?_map]
      refine congrArg (Option.map f) (List.find?_congr fun r hr => ?_)
      exact h.any_label (hfound r hr) Label.isVirtual
    rw [Scene.applyRule, Scene.applyRule, hfirst]
    cases hfind : found.find? fun r => (s.node? r).any fun n => n.isVirtual with
    | none => rfl
    | some r =>
      show Except.error (SearchCause.virtualNode (t.describe (f r))) = _
      rw [h.describe (hfound r (List.mem_of_find?_eq_some hfind))]
      rfl
  | nearestDescendant tolerateMissing =>
    rw [Scene.applyRule, Scene.applyRule, h.toElements tolerateMissing hfound]
    cases helements : s.toElements tolerateMissing found with
    | error cause => rfl
    | ok elements =>
      have hinside : ∀ e ∈ elements, s.ClimbsTo e a := by
        intro e he
        obtain ⟨r, hr, hbelow⟩ := exists_of_mem_toElements helements he
        have hr := hfound r hr
        exact (elementBelow?_eq_some h.left_forest (h.live hr) hbelow).2.1.trans hr
      exact congrArg Except.ok (eraseDups_map (h.injOn hinside))

end Scene.Twins

/-! ## Searches -/

namespace Scene

variable {s t : Scene}

theorem tops_root {key : String} {root : Ref} (h : s.root? key = some root) :
    Scope.tops s (.root key) = [root] := by
  rw [Scope.tops, h]
  rfl

/-- **A search of a root finds in a root of the same shape what corresponds to its finds, one by one, or
is refused for the same reason.** -/
theorem search_of_sameShape (hs : s.IsForest) (ht : t.IsForest) {f : Ref → Ref} {a b : Ref}
    {key key' : String} (ha : s.root? key = some a) (hb : t.root? key' = some b)
    (hshape : SameShape f s a t b) (path : List Step) (rules : FindRules) :
    t.search path (.root key') rules = (s.search path (.root key) rules).map (List.map f) := by
  have h : Twins f s a t b := ⟨hshape, hs, ht, mem_roots_of_key ha, mem_roots_of_key hb⟩
  rw [search, search, tops_root ha, tops_root hb, h.find rules.strictIndex path]
  cases hfind : Area.find ⟨s, [a]⟩ rules.strictIndex path with
  | error cause => rfl
  | ok found =>
    have hsealed := sealed_of_root hs h.left_root
    have hfound : ∀ r ∈ found, s.ClimbsTo r a := fun r hr =>
      Area.covers_singleton.mp (Area.covers_find hs (fun _ _ => Or.inr hsealed) hfind r hr)
    show (t.applyRule (found.map f) rules.element).mapError Fault.search = _
    rw [h.applyRule rules.element hfound]
    show _ = ((s.applyRule found rules.element).mapError Fault.search).map (List.map f)
    cases s.applyRule found rules.element <;> rfl

/-- A box with a row and a cell; and the same box behind another root, after a first row was removed and
its slot used again. -/
theorem search_of_sameShape_reused :
    let row : Label := { tag := some "row" }
    let cell : Label := { tag := some "cell", element := some {} }
    let s := ({} : Scene).editAll [.mountRoot "box" {}, .appendChild ⟨0⟩ row, .appendChild ⟨0⟩ cell]
    let t := ({} : Scene).editAll [.mountRoot "head" {}, .mountRoot "box" {}, .appendChild ⟨1⟩ row,
      .appendChild ⟨1⟩ row, .remove ⟨2⟩, .appendChild ⟨1⟩ cell]
    let f : Ref → Ref := fun r => if r = ⟨0⟩ then ⟨1⟩ else if r = ⟨1⟩ then ⟨3⟩ else r
    let path : List Step := [{ mode := .any, tag := some .any }]
    s.IsForest ∧ t.IsForest ∧ s.root? "box" = some ⟨0⟩ ∧ t.root? "box" = some ⟨1⟩ ∧
      SameShape f s ⟨0⟩ t ⟨1⟩ ∧ s.search path (.root "box") {} = .ok [⟨1⟩, ⟨2⟩] ∧
      t.search path (.root "box") {} = (s.search path (.root "box") {}).map (List.map f) := by
  intro row cell s t f path
  have hs : s.IsForest := (Linked.empty.editAll (by simp [Edit.KeepsLinks])).isForest
  have ht : t.IsForest := (Linked.empty.editAll (by simp [Edit.KeepsLinks])).isForest
  have ha : s.root? "box" = some ⟨0⟩ := by decide +kernel
  have hb : t.root? "box" = some ⟨1⟩ := by decide +kernel
  have hinside : ∀ r, s.ClimbsTo r ⟨0⟩ → r = ⟨0⟩ ∨ r = ⟨1⟩ ∨ r = ⟨2⟩ := by
    intro r hr
    have hlive : s.contains r = true := by
      obtain rfl | ⟨p, hp, -⟩ := Relation.ReflTransGen.cases_head hr
      · decide +kernel
      · exact contains_of_parent hp
    have hlevels : s.levels = 3 := by decide +kernel
    obtain ⟨slot⟩ := r
    have hslot : slot < 3 := hlevels ▸ slot_lt_levels hlive
    simp only [Ref.mk.injEq]
    omega
  have hshape : SameShape f s ⟨0⟩ t ⟨1⟩ := by
    refine sameShape_of_children hs ht rfl ?_ ?_ ?_
    · intro r hr q hq
      obtain rfl | rfl | rfl := hinside r hr <;> obtain rfl | rfl | rfl := hinside q hq <;> decide
    · intro r hr
      dsimp only [s, t, row, cell]
      obtain rfl | rfl | rfl := hinside r hr <;> with_unfolding_all rfl
    · intro r hr
      dsimp only [s, t, row, cell]
      obtain rfl | rfl | rfl := hinside r hr <;> with_unfolding_all rfl
  have hfound : s.search path (.root "box") {} = .ok [⟨1⟩, ⟨2⟩] := by decide +kernel
  exact ⟨hs, ht, ha, hb, hshape, hfound, search_of_sameShape hs ht ha hb hshape path {}⟩

end Scene

end SceneSelect
