import SceneSelect.Arena.Basic

/-!
# `Proofs/Arena/FreeList.lean` — the list threaded through the free slots

The free slots of an arena are a linked list whose cells are the slots themselves and whose end is
the number of slots, which grows. `Chain` walks that list; an arena is `WellFormed` when the walk from
its head meets every free slot exactly once and its count of full slots is right.

**Every operation keeps an arena well-formed** (`WellFormed.insert`, `WellFormed.remove`,
`WellFormed.modify`). The walk survives because each operation writes to one slot only and that slot
is not on what is left of the list: the head that an insertion fills is met once, and the slots that a
removal or a change writes to are full.
-/

set_option autoImplicit false

namespace SceneSelect.Arena

variable {α : Type}

/-- The slot is free. -/
def Vacant (slots : Array (Slot α)) (i : Nat) : Prop := ∃ next, slots[i]? = some (.free next)

/-- From `i`, the links of the free slots lead through these slots to the end. -/
inductive Chain (slots : Array (Slot α)) : Nat → List Nat → Prop where
  | done {i : Nat} (hi : i = slots.size) : Chain slots i []
  | step {i next : Nat} {path : List Nat} (hi : slots[i]? = some (.free next))
      (hrest : Chain slots next path) : Chain slots i (i :: path)

/-- The walk from the head meets every free slot exactly once, and the full slots are counted. -/
structure WellFormed (a : Arena α) : Prop where
  freeList : ∃ path, Chain a.slots a.head path ∧ path.Nodup ∧
    ∀ i, i ∈ path ↔ Vacant a.slots i
  counted : a.live = a.countFull

/-! ## Writing to one slot -/

theorem vacant_lt {slots : Array (Slot α)} {i : Nat} (h : Vacant slots i) : i < slots.size := by
  obtain ⟨next, hi⟩ := h
  exact (Array.getElem?_eq_some_iff.mp hi).1

theorem not_vacant_of_full {slots : Array (Slot α)} {i : Nat} {value : α}
    (h : slots[i]? = some (.full value)) : ¬Vacant slots i := by
  intro ⟨next, hi⟩
  rw [h] at hi
  exact absurd (Option.some.inj hi) (by simp)

theorem Chain.set {slots : Array (Slot α)} {i j : Nat} {path : List Nat} {slot : Slot α}
    (h : Chain slots i path) (hj : j ∉ path) : Chain (slots.setIfInBounds j slot) i path := by
  induction h with
  | done hi => exact .done (hi.trans Array.size_setIfInBounds.symm)
  | step hi _ ih =>
    obtain ⟨hne, hrest⟩ := not_or.mp (mt List.mem_cons.mpr hj)
    refine .step ?_ (ih hrest)
    rw [Array.getElem?_setIfInBounds_ne hne]
    exact hi

theorem vacant_set_ne {slots : Array (Slot α)} {i j : Nat} {slot : Slot α} (h : j ≠ i) :
    Vacant (slots.setIfInBounds j slot) i ↔ Vacant slots i := by
  rw [Vacant, Vacant, Array.getElem?_setIfInBounds_ne h]

theorem not_vacant_set_full {slots : Array (Slot α)} {i : Nat} {value : α} (h : i < slots.size) :
    ¬Vacant (slots.setIfInBounds i (.full value)) i :=
  not_vacant_of_full (Array.getElem?_setIfInBounds_self_of_lt h)

theorem vacant_set_free {slots : Array (Slot α)} {i next : Nat} (h : i < slots.size) :
    Vacant (slots.setIfInBounds i (.free next)) i :=
  ⟨next, Array.getElem?_setIfInBounds_self_of_lt h⟩

/-- What a slot adds to the count of full ones. -/
def weight (slot : Slot α) : Nat := if slot.value?.isSome then 1 else 0

theorem countFull_set {a b : Arena α} {i : Nat} {old slot : Slot α} (h : a.slots[i]? = some old)
    (hb : b.slots = a.slots.setIfInBounds i slot) :
    b.countFull + weight old = a.countFull + weight slot := by
  obtain ⟨hlt, hold⟩ := Array.getElem?_eq_some_iff.mp h
  have hlen : i < a.slots.toList.length := by simpa using hlt
  have hget : a.slots.toList[i] = old := by simpa using hold
  have hle : weight old ≤ a.countFull := by
    rw [weight]
    split
    · rename_i hsome
      exact List.countP_pos_iff.mpr ⟨old, hget ▸ List.getElem_mem hlen, hsome⟩
    · exact Nat.zero_le _
  have hset : b.countFull = a.countFull - weight old + weight slot := by
    rw [countFull, hb, Array.toList_setIfInBounds, List.countP_set hlen, hget]
    rfl
  omega

/-! ## The operations -/

theorem wellFormed_empty : WellFormed ({} : Arena α) := by
  refine ⟨⟨[], .done rfl, List.nodup_nil, fun i => ?_⟩, rfl⟩
  refine iff_of_false (by simp) fun hi => ?_
  exact absurd (vacant_lt hi) (by simp)

/-- **The head is the end of the list or a free slot; an insertion finds no full one there.** -/
theorem WellFormed.head {a : Arena α} (h : a.WellFormed) :
    a.head = a.slots.size ∨ Vacant a.slots a.head := by
  obtain ⟨path, hchain, -, -⟩ := h.freeList
  cases hchain with
  | done hi => exact Or.inl hi
  | step hi _ => exact Or.inr ⟨_, hi⟩

/-- With the head at the end the list is empty, so no slot is free. -/
theorem WellFormed.not_vacant {a : Arena α} (h : a.WellFormed) (hend : a.head = a.slots.size)
    (i : Nat) : ¬Vacant a.slots i := by
  obtain ⟨path, hchain, -, hpath⟩ := h.freeList
  intro hi
  cases hchain with
  | done => exact absurd ((hpath i).mpr hi) List.not_mem_nil
  | step hhead _ => exact absurd hend (Nat.ne_of_lt (vacant_lt ⟨_, hhead⟩))

/-- An insertion makes a slot at the end of an empty list, or takes the head off the list. -/
theorem WellFormed.insert_cases {a : Arena α} (h : a.WellFormed) (value : α) :
    (a.head = a.slots.size ∧ a.insert value =
      (⟨a.head⟩, ⟨a.slots.push (.full value), a.live + 1, a.slots.size + 1⟩)) ∨
    ∃ next, a.slots[a.head]? = some (.free next) ∧ a.insert value =
      (⟨a.head⟩, ⟨a.slots.setIfInBounds a.head (.full value), a.live + 1, next⟩) := by
  rcases h.head with hend | ⟨next, hnext⟩
  · exact Or.inl ⟨hend, if_pos hend⟩
  · have hlt := vacant_lt ⟨next, hnext⟩
    refine Or.inr ⟨next, hnext, ?_⟩
    rw [Arena.insert, if_neg (Nat.ne_of_lt hlt), hnext]

theorem remove_of_full {a : Arena α} {r : Ref} {value : α}
    (h : a.slots[r.slot]? = some (.full value)) :
    a.remove r =
      (some value, ⟨a.slots.setIfInBounds r.slot (.free a.head), a.live - 1, r.slot⟩) := by
  rw [Arena.remove, h]

theorem countFull_remove {a : Arena α} {r : Ref} {value : α}
    (h : a.slots[r.slot]? = some (.full value)) : (a.remove r).2.countFull + 1 = a.countFull := by
  have hslots : (a.remove r).2.slots = a.slots.setIfInBounds r.slot (.free a.head) := by
    rw [remove_of_full h]
  exact countFull_set h hslots

theorem modify_of_full {a : Arena α} {r : Ref} {value : α} (change : α → α)
    (h : a.slots[r.slot]? = some (.full value)) :
    a.modify r change = { a with slots := a.slots.setIfInBounds r.slot (.full (change value)) } := by
  rw [Arena.modify, h]

theorem get?_eq_some_iff {a : Arena α} {r : Ref} {value : α} :
    a.get? r = some value ↔ a.slots[r.slot]? = some (.full value) := by
  rw [Arena.get?, Option.bind_eq_some_iff]
  constructor
  · rintro ⟨slot, hslot, hvalue⟩
    cases slot with
    | free => exact absurd hvalue (by simp [Slot.value?])
    | full v =>
      obtain rfl := Option.some.inj hvalue
      exact hslot
  · intro h
    exact ⟨.full value, h, rfl⟩

theorem remove_of_none {a : Arena α} {r : Ref} (h : a.get? r = none) : a.remove r = (none, a) := by
  rw [Arena.remove]
  split
  · rename_i value hvalue
    rw [get?_eq_some_iff.mpr hvalue] at h
    exact absurd h (by simp)
  · rfl

theorem modify_of_none {a : Arena α} {r : Ref} (change : α → α) (h : a.get? r = none) :
    a.modify r change = a := by
  rw [Arena.modify]
  split
  · rename_i value hvalue
    rw [get?_eq_some_iff.mpr hvalue] at h
    exact absurd h (by simp)
  · rfl

/-! ## The operations keep the list -/

theorem WellFormed.insert {a : Arena α} (h : a.WellFormed) (value : α) :
    (a.insert value).2.WellFormed := by
  obtain ⟨path, hchain, hnodup, hpath⟩ := h.freeList
  have hcount := h.counted
  rcases h.insert_cases value with ⟨hend, hinsert⟩ | ⟨next, hnext, hinsert⟩
  · rw [hinsert]
    refine ⟨⟨[], .done (Array.size_push _).symm, List.nodup_nil, fun i => ?_⟩, ?_⟩
    · -- no slot was free, and the new one is full
      refine iff_of_false (by simp) fun ⟨next, hi⟩ => ?_
      rw [Array.getElem?_push] at hi
      split at hi
      · exact absurd (Option.some.inj hi) (by simp)
      · exact h.not_vacant hend i ⟨next, hi⟩
    · show a.live + 1 = List.countP _ (a.slots.push (.full value)).toList
      rw [Array.toList_push, List.countP_append, hcount]
      rfl
  · rw [hinsert]
    have hlt : a.head < a.slots.size := vacant_lt ⟨next, hnext⟩
    cases hchain with
    | done hend => exact absurd hend (Nat.ne_of_lt hlt)
    | @step _ next' rest hnext' hrest =>
      obtain rfl : next = next' := by
        rw [hnext] at hnext'
        exact Slot.free.inj (Option.some.inj hnext')
      -- the head is met once, so what is left of the list does not come back to it
      obtain ⟨hhead, hrestNodup⟩ := List.nodup_cons.mp hnodup
      refine ⟨⟨rest, hrest.set hhead, hrestNodup, fun i => ?_⟩, ?_⟩
      · by_cases hi : a.head = i
        · subst hi
          exact iff_of_false hhead (not_vacant_set_full hlt)
        · rw [vacant_set_ne hi, ← hpath i, List.mem_cons]
          exact ⟨Or.inr, fun h => h.resolve_left fun heq => hi heq.symm⟩
      · have hset := countFull_set (b := (a.insert value).2) hnext (by rw [hinsert])
        rw [hinsert] at hset
        show a.live + 1 = _
        rw [hcount]
        exact hset.symm

theorem WellFormed.remove {a : Arena α} (h : a.WellFormed) (r : Ref) :
    (a.remove r).2.WellFormed := by
  cases hget : a.get? r with
  | none =>
    rw [remove_of_none hget]
    exact h
  | some value =>
    have hfull := get?_eq_some_iff.mp hget
    obtain ⟨path, hchain, hnodup, hpath⟩ := h.freeList
    have hlt : r.slot < a.slots.size := (Array.getElem?_eq_some_iff.mp hfull).1
    have hoff : r.slot ∉ path := fun hmem => not_vacant_of_full hfull ((hpath r.slot).mp hmem)
    rw [remove_of_full hfull]
    refine ⟨⟨r.slot :: path, ?_, List.nodup_cons.mpr ⟨hoff, hnodup⟩, fun i => ?_⟩, ?_⟩
    · exact .step (Array.getElem?_setIfInBounds_self_of_lt hlt) (hchain.set hoff)
    · by_cases hi : r.slot = i
      · subst hi
        exact iff_of_true List.mem_cons_self (vacant_set_free hlt)
      · rw [vacant_set_ne hi, ← hpath i, List.mem_cons]
        exact ⟨fun h => h.resolve_left fun heq => hi heq.symm, Or.inr⟩
    · have hset := countFull_remove hfull
      rw [remove_of_full hfull] at hset
      show a.live - 1 = _
      rw [h.counted, ← hset]
      rfl

theorem WellFormed.modify {a : Arena α} (h : a.WellFormed) (r : Ref) (change : α → α) :
    (a.modify r change).WellFormed := by
  cases hget : a.get? r with
  | none =>
    rw [modify_of_none change hget]
    exact h
  | some value =>
    have hfull := get?_eq_some_iff.mp hget
    obtain ⟨path, hchain, hnodup, hpath⟩ := h.freeList
    have hlt : r.slot < a.slots.size := (Array.getElem?_eq_some_iff.mp hfull).1
    have hoff : r.slot ∉ path := fun hmem => not_vacant_of_full hfull ((hpath r.slot).mp hmem)
    rw [modify_of_full change hfull]
    refine ⟨⟨path, hchain.set hoff, hnodup, fun i => ?_⟩, ?_⟩
    · by_cases hi : r.slot = i
      · subst hi
        exact iff_of_false hoff (not_vacant_set_full hlt)
      · rw [vacant_set_ne hi]
        exact hpath i
    · have hset := countFull_set (b := a.modify r change) hfull (by rw [modify_of_full change hfull])
      rw [modify_of_full change hfull] at hset
      show a.live = _
      rw [h.counted]
      exact (Nat.add_right_cancel hset).symm

/-! ## The counters -/

theorem WellFormed.live_insert {a : Arena α} (h : a.WellFormed) (value : α) :
    (a.insert value).2.live = a.live + 1 := by
  rcases h.insert_cases value with ⟨-, hinsert⟩ | ⟨next, -, hinsert⟩
  · rw [hinsert]
  · rw [hinsert]

theorem WellFormed.live_remove {a : Arena α} (h : a.WellFormed) {r : Ref} {value : α}
    (hr : a.get? r = some value) : (a.remove r).2.live + 1 = a.live := by
  rw [(h.remove r).counted, h.counted]
  exact countFull_remove (get?_eq_some_iff.mp hr)

theorem live_modify (a : Arena α) (r : Ref) (change : α → α) : (a.modify r change).live = a.live := by
  rw [Arena.modify]
  split <;> rfl

theorem head_modify (a : Arena α) (r : Ref) (change : α → α) : (a.modify r change).head = a.head := by
  rw [Arena.modify]
  split <;> rfl

theorem size_modify (a : Arena α) (r : Ref) (change : α → α) :
    (a.modify r change).slots.size = a.slots.size := by
  rw [Arena.modify]
  split
  · exact Array.size_setIfInBounds
  · rfl

/-- Where no slot is free, an insertion makes one at the end. -/
theorem insert_of_head_eq {a : Arena α} (h : a.head = a.slots.size) (value : α) :
    a.insert value =
      (⟨a.slots.size⟩, ⟨a.slots.push (.full value), a.live + 1, a.slots.size + 1⟩) := by
  rw [Arena.insert, if_pos h, h]

end SceneSelect.Arena
