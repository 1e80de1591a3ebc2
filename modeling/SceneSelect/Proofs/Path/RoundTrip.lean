import SceneSelect.Proofs.Path.Recognition
import SceneSelect.Proofs.Path.Written

/-!
# `Proofs/Path/RoundTrip.lean` — a path that was read is read again from its printed form

**`parse_render_of_parse`: reading what the printer makes of a path that was read gives the same
steps.** Selectors and filters come back one by one; what is left is that the whole still falls into
the same pieces. Two things could go wrong when the printer moves a child index to the end of its
group: a join could arise or vanish, and the bracket depth at a slash could change.

Joins are no concern, because a body without a join has none in any surroundings. For the depth,
brackets in the values of filters are counted across the bodies: a value may open a bracket that a
later value closes. `throughBodies` follows the depth from body to body, and the child index, which
is `Plain`, can stand anywhere in that chain.

What the printed form of one step must come to is `Step.ReadsBack`; a path of such steps is read back
(`pathText_chars`), whether or not a text was there before.
-/

set_option autoImplicit false

namespace SceneSelect.Path

open Text

/-! ## The depth behind a row of bodies -/

/-- The depth behind bodies entered at depth `d`, if behind each there is a bracket left to close. -/
def throughBodies (d : Nat) : List (List Char) → Option Nat
  | [] => some d
  | body :: rest => (through d body).bind fun e => if e = 0 then none else throughBodies e rest

theorem IsAnd.plain {word : List Char} (h : IsAnd word) : Plain word :=
  .of_class (by decide) (by decide) (by decide) fun _ hc => h.isAlpha hc

/-- A group is left through the `]` behind its last body; a join closes a bracket and opens one. -/
theorem Joined.through_inside {bodies : List (List Char)} {inside : List Char}
    (h : Joined bodies inside) (d : Nat) :
    through d (inside ++ [']']) = (throughBodies d bodies).map Nat.pred := by
  induction h generalizing d with
  | @one body hb =>
    rw [through_append, throughBodies]
    cases through d body with
    | none => rfl
    | some e =>
      simp only [Option.bind_some, through_close, throughBodies]
      split <;> rfl
  | @cons body word inside bodies hb hw hr ih =>
    rw [List.append_assoc, through_append, throughBodies]
    cases through d body with
    | none => rfl
    | some e =>
      simp only [Option.bind_some, List.cons_append, through_close]
      split
      · rfl
      · rename_i he
        rw [List.append_assoc, through_append, through_plain hw.plain, Option.bind_some,
          List.cons_append, through_open, ih, Nat.sub_add_cancel (Nat.pos_of_ne_zero he)]

theorem throughBodies_append (d : Nat) (as bs : List (List Char)) :
    throughBodies d (as ++ bs) = (throughBodies d as).bind fun e => throughBodies e bs := by
  induction as generalizing d with
  | nil => rfl
  | cons a as ih =>
    rw [List.cons_append, throughBodies, throughBodies, Option.bind_assoc]
    congr
    funext e
    split
    · rfl
    · exact ih e

theorem throughBodies_pos {d e : Nat} {bodies : List (List Char)} (hd : 0 < d)
    (h : throughBodies d bodies = some e) : 0 < e := by
  induction bodies generalizing d with
  | nil =>
    obtain rfl := Option.some.inj h
    exact hd
  | cons b bs ih =>
    obtain ⟨m, -, h⟩ := Option.bind_eq_some_iff.mp h
    split at h
    · exact absurd h (by simp)
    · rename_i hm
      exact ih (Nat.pos_of_ne_zero hm) h

theorem throughBodies_plain {d : Nat} {body : List Char} (hd : 0 < d) (hb : Plain body)
    (rest : List (List Char)) : throughBodies d (body :: rest) = throughBodies d rest := by
  rw [throughBodies, through_plain hb, Option.bind_some, if_neg (by omega)]

theorem throughBodies_level {d : Nat} {bodies : List (List Char)} (hd : 0 < d)
    (hall : ∀ b ∈ bodies, through d b = some d) : throughBodies d bodies = some d := by
  induction bodies with
  | nil => rfl
  | cons b bs ih =>
    obtain ⟨hb, hbs⟩ := List.forall_mem_cons.mp hall
    rw [throughBodies, hb, Option.bind_some, if_neg (by omega), ih hbs]

/-! ## The order in which filters are printed -/

/-- The filters with the child indices behind the others. -/
def childLast (filters : List Filter) : List Filter :=
  filters.filter (fun f => f.childIndex?.isNone) ++ filters.filter fun f => f.childIndex?.isSome

theorem childLast_perm (filters : List Filter) : (childLast filters).Perm filters := by
  have h := List.filter_append_perm (fun f : Filter => f.childIndex?.isNone) filters
  simpa [childLast] using h

theorem childIndex?_eq_some {f : Filter} {p : Position} (h : f.childIndex? = some p) :
    f = .childIndex p := by
  cases f with
  | childIndex q => exact congrArg _ (Option.some.inj h)
  | _ => exact absurd h (by simp [Filter.childIndex?])

theorem filter_childIndex (filters : List Filter) :
    filters.filter (fun f => f.childIndex?.isSome) =
      (filters.filterMap Filter.childIndex?).map Filter.childIndex := by
  induction filters with
  | nil => rfl
  | cons f fs ih =>
    cases hf : f.childIndex? with
    | some p =>
      rw [List.filter_cons_of_pos (by simp [hf]), List.filterMap_cons_some hf, ih, List.map_cons,
        ← childIndex?_eq_some hf]
    | none => rw [List.filter_cons_of_neg (by simp [hf]), List.filterMap_cons_none hf, ih]

theorem childIndices_childLast (filters : List Filter) :
    (childLast filters).filterMap Filter.childIndex? = filters.filterMap Filter.childIndex? := by
  have hothers : (filters.filter fun f => f.childIndex?.isNone).filterMap Filter.childIndex? =
      [] := by
    rw [List.filterMap_eq_nil_iff]
    intro f hf
    exact Option.isNone_iff_eq_none.mp (List.mem_filter.mp hf).2
  have hself : Filter.childIndex? ∘ Filter.childIndex = some := rfl
  rw [childLast, List.filterMap_append, hothers, filter_childIndex, List.filterMap_map, hself,
    List.filterMap_some]
  rfl

theorem others_childLast (filters : List Filter) :
    (childLast filters).filter (fun f => f.childIndex?.isNone) =
      filters.filter fun f => f.childIndex?.isNone := by
  rw [childLast, List.filter_append, List.filter_filter, List.filter_filter]
  simp

theorem withFilters_childLast (step : Step) (filters : List Filter) :
    step.withFilters (childLast filters) = step.withFilters filters := by
  rw [Step.withFilters, Step.withFilters, childIndices_childLast, others_childLast]

theorem Compatible.childLast {sibling : Int32} {filters : List Filter}
    (h : Compatible sibling filters) : Compatible sibling (childLast filters) := by
  have hperm := childLast_perm filters
  refine ⟨fun f hf hindex => ?_, ?_, fun hs => ?_⟩
  · rw [hperm.length_eq]
    exact h.indexAlone f (hperm.mem_iff.mp hf) hindex
  · rw [childIndices_childLast]
    exact h.oneChildIndex
  · rw [childIndices_childLast]
    exact h.noSiblingIndex hs

theorem bodies_withFilters (step : Step) {filters : List Filter}
    (hone : (filters.filterMap Filter.childIndex?).length ≤ 1) :
    (step.withFilters filters).bodies = (childLast filters).map Filter.chars := by
  rw [Step.bodies, childLast, List.map_append, filter_childIndex, List.map_map]
  -- the step keeps one child index only, so there must not be a second
  rcases hci : filters.filterMap Filter.childIndex? with _ | ⟨p, _ | ⟨q, rest⟩⟩
  · simp [Step.withFilters, hci]
  · simp [Step.withFilters, hci]
  · rw [hci] at hone
    exact absurd hone (by simp)

/-! ## The printed group -/

theorem FilterText.joinFree_written {cs : List Char} {f : Filter} (h : FilterText cs f)
    (hfree : JoinFree cs) : JoinFree f.chars := by
  obtain heq | ⟨-, hplain⟩ := h.eq_or_plain
  · rw [heq]
    exact hfree
  · exact hplain.joinFree

theorem FilterText.through_written {cs : List Char} {f : Filter} (h : FilterText cs f) (d : Nat) :
    through d f.chars = through d cs := by
  obtain heq | ⟨hcs, hplain⟩ := h.eq_or_plain
  · rw [heq]
  · rw [through_plain hcs, through_plain hplain]

theorem throughBodies_others {bodies : List (List Char)} {filters : List Filter}
    (h : List.Forall₂ FilterText bodies filters) {d : Nat} (hd : 0 < d) :
    throughBodies d bodies =
      throughBodies d ((filters.filter fun f => f.childIndex?.isNone).map Filter.chars) := by
  induction h generalizing d with
  | nil => rfl
  | @cons b f bs fs hf _ ih =>
    cases hci : f.childIndex? with
    | some p =>
      -- the one body that moves leaves the depth as it is
      rw [throughBodies_plain hd (hf.plain_of_childIndex hci), ih hd,
        List.filter_cons_of_neg (by simp [hci])]
    | none =>
      rw [List.filter_cons_of_pos (by simp [hci]), List.map_cons, throughBodies, throughBodies,
        hf.through_written]
      congr
      funext e
      split
      · rfl
      · rename_i he
        exact ih (Nat.pos_of_ne_zero he)

theorem throughBodies_written {bodies : List (List Char)} {filters : List Filter}
    (h : List.Forall₂ FilterText bodies filters) {d : Nat} (hd : 0 < d) :
    throughBodies d ((childLast filters).map Filter.chars) = throughBodies d bodies := by
  have hwritten := forall_of_forall₂ h fun _ _ hf => hf.written
  rw [childLast, List.map_append, throughBodies_append, throughBodies_others h hd]
  cases hothers : throughBodies d
      ((filters.filter fun f => f.childIndex?.isNone).map Filter.chars) with
  | none => rfl
  | some e =>
    refine throughBodies_level (throughBodies_pos hd hothers) fun b hb => ?_
    obtain ⟨f, hf, rfl⟩ := List.mem_map.mp hb
    obtain ⟨hmem, hsome⟩ := List.mem_filter.mp hf
    obtain ⟨p, hp⟩ := Option.isSome_iff_exists.mp hsome
    exact through_plain ((hwritten f hmem).plain_of_childIndex hp) e

theorem joined_childLast {filters : List Filter} (hne : filters ≠ [])
    (hfree : ∀ f ∈ filters, JoinFree f.chars) :
    Joined ((childLast filters).map Filter.chars)
      ("]AND[".toList.intercalate ((childLast filters).map Filter.chars)) := by
  have hperm := childLast_perm filters
  apply joined_intercalate
  · intro hnil
    have hempty := List.map_eq_nil_iff.mp hnil
    rw [hempty] at hperm
    exact hne hperm.nil_eq.symm
  · intro b hb
    obtain ⟨f, hmem, rfl⟩ := List.mem_map.mp hb
    exact hfree f (hperm.mem_iff.mp hmem)

/-- What the printer makes of filters that were read can be read: none of them holds a join, and they
lead out of the group as their bodies did. -/
theorem written_filters {bodies : List (List Char)} {inside : List Char} {filters : List Filter}
    (hj : Joined bodies inside) (hf : List.Forall₂ FilterText bodies filters) :
    filters ≠ [] ∧ ∀ f ∈ filters, FilterText f.chars f ∧ JoinFree f.chars := by
  have hboth := (List.forall₂_and_left _ _).mpr ⟨hj.joinFree, hf⟩
  constructor
  · rintro rfl
    exact hj.ne_nil (List.forall₂_nil_right_iff.mp hf)
  · exact forall_of_forall₂ hboth fun _ _ ⟨hfree, htext⟩ =>
      ⟨htext.written, htext.joinFree_written hfree⟩

/-! ## Segments and paths -/

theorem chars_of_bodies {step : Step} (h : step.bodies ≠ []) :
    step.chars =
      step.selectorChars ++ '[' :: ("]AND[".toList.intercalate step.bodies ++ [']']) := by
  rw [Step.chars, Step.groupChars, if_neg (by simpa using h)]

theorem chars_of_unfiltered {cs : List Char} {step : Step} (h : SelectorText cs step) :
    step.chars = step.selectorChars := by
  obtain ⟨hfilters, hindex⟩ := h.unfiltered
  simp [Step.chars, Step.bodies, hfilters, hindex, Step.groupChars]

/-- A step that is printed as a segment, one that says the step and keeps to its depth. -/
structure Step.ReadsBack (step : Step) : Prop where
  ne_nil : step.chars ≠ []
  depth : through 0 step.chars = some 0
  text : SegmentText step.chars step

theorem SelectorText.readsBack {step : Step} (h : SelectorText step.selectorChars step)
    (hne : step.selectorChars ≠ []) (hplain : Plain step.selectorChars) : step.ReadsBack := by
  have hchars := chars_of_unfiltered h
  constructor
  case ne_nil =>
    rw [hchars]
    exact hne
  case depth =>
    rw [hchars]
    exact through_plain hplain 0
  case text =>
    rw [hchars]
    exact .bare (fun hmem => (hplain '[' hmem).1 rfl) h

/-- Filters that are read back one by one are read back together, where they lead out of their group. -/
theorem SelectorText.readsBack_withFilters {step : Step} {filters : List Filter}
    (h : SelectorText step.selectorChars step) (hplain : Plain step.selectorChars)
    (hne : filters ≠ []) (hfilters : ∀ f ∈ filters, FilterText f.chars f ∧ JoinFree f.chars)
    (hc : Compatible step.sibling filters)
    (hdepth : throughBodies 1 ((childLast filters).map Filter.chars) = some 1) :
    (step.withFilters filters).ReadsBack := by
  have hjoined := joined_childLast hne fun f hf => (hfilters f hf).2
  have hbodies := bodies_withFilters step hc.oneChildIndex
  have hkept : (step.withFilters filters).selectorChars = step.selectorChars := rfl
  have hchars := chars_of_bodies (hbodies ▸ hjoined.ne_nil)
  rw [hbodies, hkept] at hchars
  constructor
  case ne_nil =>
    rw [hchars]
    simp
  case depth =>
    rw [hchars, through_append, through_plain hplain, Option.bind_some, through_open,
      hjoined.through_inside, hdepth]
    rfl
  case text =>
    rw [hchars, ← withFilters_childLast step filters]
    have htext : ∀ f ∈ childLast filters, FilterText f.chars f :=
      fun f hf => (hfilters f ((childLast_perm filters).mem_iff.mp hf)).1
    refine .filtered (fun hmem => (hplain '[' hmem).1 rfl) h hjoined ?_ ?_ hc.childLast
    · intro b hb
      obtain ⟨f, hmem, rfl⟩ := List.mem_map.mp hb
      exact (htext f hmem).ne_nil
    · rw [List.forall₂_map_left_iff, List.forall₂_same]
      exact htext

theorem SegmentText.readsBack {cs : List Char} {step : Step} (h : SegmentText cs step)
    (hne : cs ≠ []) (hdepth : through 0 cs = some 0) : step.ReadsBack := by
  cases h with
  | bare hopen hs =>
    have hplain := (plain_of_through hopen hdepth).1
    exact hs.written.readsBack (hs.written_ne_nil hne) (hs.plain_written hplain)
  | filtered hopen hs hj _ hf hc =>
    -- the selector ends outside all brackets, and the group leads back there
    obtain ⟨e, hselector, hgroup⟩ := Option.bind_eq_some_iff.mp (through_append .. ▸ hdepth)
    obtain ⟨hplain, rfl⟩ := plain_of_through hopen hselector
    rw [through_open, hj.through_inside] at hgroup
    obtain ⟨e, hbodies, hclosed⟩ := Option.map_eq_some_iff.mp hgroup
    obtain rfl : e = 1 := by
      have := throughBodies_pos Nat.one_pos hbodies
      rw [Nat.pred_eq_sub_one] at hclosed
      omega
    obtain ⟨hfilled, hfilters⟩ := written_filters hj hf
    refine hs.written.readsBack_withFilters (hs.plain_written hplain) hfilled hfilters hc ?_
    rw [throughBodies_written hf Nat.one_pos]
    exact hbodies

theorem pathText_chars {steps : List Step} (hne : steps ≠ [])
    (h : ∀ step ∈ steps, step.ReadsBack) : PathText (chars steps) steps := by
  refine ⟨balanced_intercalate fun p hp => ?_, steps.map Step.chars, ?_, rfl, ?_⟩
  · obtain ⟨step, hmem, rfl⟩ := List.mem_map.mp hp
    exact (through_zero_iff.mp (h step hmem).depth).1
  · simpa using hne
  · rw [List.forall₂_map_left_iff, List.forall₂_same]
    intro step hmem
    obtain ⟨hstep, hdepth, htext⟩ := h step hmem
    obtain ⟨hb, hs⟩ := through_zero_iff.mp hdepth
    exact ⟨hstep, hb, hs, htext⟩

theorem PathText.written {cs : List Char} {steps : List Step} (h : PathText cs steps) :
    PathText (chars steps) steps := by
  obtain ⟨-, segments, hne, -, hall⟩ := h
  apply pathText_chars
  · rintro rfl
    exact hne (List.forall₂_nil_right_iff.mp hall)
  · refine forall_of_forall₂ hall fun segment step ⟨hsegment, hb, hs, htext⟩ => ?_
    exact htext.readsBack hsegment (through_zero_iff.mpr ⟨hb, hs⟩)

/-- **What is printed for a path that was read is read as the same path.** -/
theorem parse_render_of_parse {text : String} {steps : List Step} (h : parse text = .ok steps) :
    parse (render steps) = .ok steps := by
  have htext : PathText text.toList steps := readPath_eq_ok_iff.mp h
  have hread := readPath_eq_ok_iff.mpr htext.written
  rw [parse, render, String.toList_ofList]
  exact hread

/-- Leading zeros, `-0`, joins in mixed case, a child index in front and a value whose brackets and
slash lie across its own depth. -/
theorem parse_render_of_moved_index :
    let text := ">03>.a/~div[:-0]aNd[text*=p[/]q]1[r]and[$size=<=9]"
    let steps : List Step :=
      [{ sibling := 3, identity := some "a" },
        { mode := .any, tag := some (.named "div"),
          filters := [.text ⟨.startsWith, "p[/]q]1[r"⟩, .data "size" ⟨.equal, "<=9"⟩],
          childIndex := some (.nth 0) }]
    parse text = .ok steps ∧
      render steps = ">3>.a/~div[text*=p[/]q]1[r]AND[$size=<=9]AND[:0]" ∧
      parse (render steps) = .ok steps := by
  intro text steps
  have hread : parse text = .ok steps := by decide +kernel
  exact ⟨hread, by decide +kernel, parse_render_of_parse hread⟩

end SceneSelect.Path
