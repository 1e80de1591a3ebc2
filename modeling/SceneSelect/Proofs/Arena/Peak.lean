import Mathlib.Data.List.Induction
import Mathlib.Order.Bounds.Basic
import SceneSelect.Proofs.Arena.Map

/-!
# `Proofs/Arena/Peak.lean` — an arena is as large as it ever had to be

A slot is made only when no slot is free, which is when there are as many values as slots. So the number of
slots goes up to the number of values and no further: **after each operation it is the greater of what it
was and the number of values now** (`WellFormed.size_perform`). That takes the whole list of free slots: a
slot that were free but not on the list would never be filled again, and the arena would grow without need.

What grows like that along a run has, at any time, the greatest number there was (`isGreatest_run`).
-/

set_option autoImplicit false

namespace SceneSelect

/-- If a measure follows another one up, and stays where it is otherwise, then it is always the greatest
value that the other one had so far. -/
theorem isGreatest_run {σ ε : Type} (size live : σ → Nat) {step : σ → ε → σ} {P : σ → Prop}
    (hkeeps : ∀ s e, P s → P (step s e))
    (hgrows : ∀ s e, P s → size (step s e) = max (size s) (live (step s e))) (start : σ)
    (hP : P start) (hstart : size start = live start) (events : List ε) :
    IsGreatest {n | ∃ past, past <+: events ∧ live (past.foldl step start) = n}
      (size (events.foldl step start)) := by
  have hrun : ∀ events : List ε, P (events.foldl step start) := by
    intro events
    induction events using List.reverseRecOn with
    | nil => exact hP
    | append_singleton events e ih =>
      rw [List.foldl_append]
      exact hkeeps _ e ih
  induction events using List.reverseRecOn with
  | nil =>
    refine ⟨⟨[], List.nil_prefix, hstart.symm⟩, ?_⟩
    rintro n ⟨past, hpast, rfl⟩
    rw [List.prefix_nil.mp hpast]
    exact hstart.ge
  | append_singleton events e ih =>
    -- one more event adds one more moment
    have hmoments : {n | ∃ past, past <+: events ++ [e] ∧ live (past.foldl step start) = n} =
        insert (live ((events ++ [e]).foldl step start))
          {n | ∃ past, past <+: events ∧ live (past.foldl step start) = n} := by
      ext n
      simp only [Set.mem_ofPred_eq, Set.mem_insert_iff, List.prefix_concat_iff, or_and_right,
        exists_or, exists_eq_left, eq_comm]
    rw [hmoments, List.foldl_append, List.foldl_cons, List.foldl_nil, hgrows _ e (hrun events),
      max_comm]
    exact ih.insert _

namespace Arena

variable {α : Type} {a : Arena α}

/-! ## Values and slots -/

theorem WellFormed.live_le_size (h : a.WellFormed) : a.live ≤ a.slots.size := by
  rw [h.counted, ← Array.length_toList]
  exact List.countP_le_length

/-- As long as a slot is free there are fewer values than slots. -/
theorem WellFormed.live_lt_size (h : a.WellFormed) {i : Nat} (hi : Vacant a.slots i) :
    a.live < a.slots.size := by
  refine Nat.lt_of_le_of_ne h.live_le_size fun heq => ?_
  rw [h.counted, ← Array.length_toList] at heq
  obtain ⟨next, hfree⟩ := hi
  rw [← Array.getElem?_toList] at hfree
  have hfull := List.countP_eq_length.mp heq _ (List.mem_of_getElem? hfree)
  exact absurd hfull (by simp [Slot.value?])

/-- At the end of the list of free slots every slot is full. -/
theorem WellFormed.live_eq_size (h : a.WellFormed) (hend : a.head = a.slots.size) :
    a.live = a.slots.size := by
  rw [h.counted, ← Array.length_toList]
  refine List.countP_eq_length.mpr fun slot hslot => ?_
  obtain ⟨i, hi⟩ := List.getElem?_of_mem hslot
  rw [Array.getElem?_toList] at hi
  cases slot with
  | free next => exact absurd ⟨next, hi⟩ (h.not_vacant hend i)
  | full value => rfl

/-! ## What the operations do to the number of slots -/

theorem WellFormed.size_insert (h : a.WellFormed) (value : α) :
    (a.insert value).2.slots.size = max a.slots.size (a.insert value).2.live := by
  rcases h.insert_cases value with ⟨hend, hinsert⟩ | ⟨next, hnext, hinsert⟩
  · have hfull := h.live_eq_size hend
    rw [hinsert]
    simp only [Array.size_push]
    omega
  · have hroom := h.live_lt_size ⟨next, hnext⟩
    rw [hinsert]
    simp only [Array.size_setIfInBounds]
    omega

theorem size_remove (a : Arena α) (r : Ref) : (a.remove r).2.slots.size = a.slots.size := by
  cases hget : a.get? r with
  | none => rw [remove_of_none hget]
  | some value =>
    rw [remove_of_full (get?_eq_some_iff.mp hget)]
    exact Array.size_setIfInBounds

/-- Where the number of slots stays, it is the greater of the two all the same. -/
theorem WellFormed.size_eq_max (h : a.WellFormed) {n : Nat} (hsize : a.slots.size = n) :
    a.slots.size = max n a.live := by
  have hle := h.live_le_size
  omega

theorem WellFormed.size_perform (h : a.WellFormed) (use : Use α) :
    (a.perform use).2.slots.size = max a.slots.size (a.perform use).2.live := by
  cases use with
  | insert value => exact h.size_insert value
  | remove r => exact (h.remove r).size_eq_max (size_remove a r)
  | get r => exact h.size_eq_max rfl
  | modify r change => exact (h.modify r change).size_eq_max (size_modify a r change)

/-! ## Any order of uses -/

theorem performAll_snd (a : Arena α) (uses : List (Use α)) :
    (a.performAll uses).2 = uses.foldl (fun a use => (a.perform use).2) a := by
  induction uses generalizing a with
  | nil => rfl
  | cons use rest ih => exact ih (a.perform use).2

/-- However it is used, an arena has as many slots as it had values at one time, and never had more. -/
theorem isGreatest_performAll (uses : List (Use α)) :
    IsGreatest {n | ∃ past, past <+: uses ∧ (({} : Arena α).performAll past).2.countFull = n}
      (({} : Arena α).performAll uses).2.slots.size := by
  have hcount : ∀ uses : List (Use α),
      (({} : Arena α).performAll uses).2.countFull = (({} : Arena α).performAll uses).2.live :=
    fun uses => (wellFormed_empty.performAll uses).1.counted.symm
  simp only [hcount]
  simp only [performAll_snd]
  exact isGreatest_run (fun a => a.slots.size) Arena.live (P := WellFormed)
    (fun a use h => (h.perform use).1) (fun a use h => h.size_perform use) {}
    wellFormed_empty rfl uses

end Arena

end SceneSelect
