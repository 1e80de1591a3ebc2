import Mathlib.Logic.Function.Basic
import SceneSelect.Proofs.Arena.FreeList

/-!
# `Proofs/Arena/Map.lean` — an arena is a finite map

What an arena holds is a map from references to values, `get?`. Each operation is one update of that
map (`get?_insert`, `get?_remove`, `get?_modify`); only for an insertion does this take the free list,
which says that the slot it fills was empty. So **an arena that is used in any order answers as a map
would** (`performAll_refines_map`), where a map is free to choose the reference under which it puts a
new value, as long as nothing is there.
-/

set_option autoImplicit false

namespace SceneSelect.Arena

variable {α : Type}

/-! ## What each operation does to the map -/

theorem get?_set {a b : Arena α} {i : Nat} {slot : Slot α} (hi : i < a.slots.size)
    (hb : b.slots = a.slots.setIfInBounds i slot) :
    b.get? = Function.update a.get? ⟨i⟩ slot.value? := by
  funext r
  rw [Arena.get?, hb]
  by_cases hr : r = ⟨i⟩
  · subst hr
    rw [Function.update_self, Array.getElem?_setIfInBounds_self_of_lt hi, Option.bind_some]
  · have hslot : i ≠ r.slot := fun h => hr (by rw [h])
    rw [Function.update_of_ne hr, Array.getElem?_setIfInBounds_ne hslot, Arena.get?]

theorem WellFormed.get?_insert_ref {a : Arena α} (h : a.WellFormed) (value : α) :
    a.get? (a.insert value).1 = none := by
  rcases h.insert_cases value with ⟨hend, hinsert⟩ | ⟨next, hnext, hinsert⟩
  · rw [hinsert, Arena.get?, hend, Array.getElem?_eq_none (Nat.le_refl _)]
    rfl
  · rw [hinsert, Arena.get?, hnext]
    rfl

theorem WellFormed.get?_insert {a : Arena α} (h : a.WellFormed) (value : α) :
    (a.insert value).2.get? = Function.update a.get? (a.insert value).1 (some value) := by
  rcases h.insert_cases value with ⟨hend, hinsert⟩ | ⟨next, hnext, hinsert⟩
  · -- a new slot: no reference to it had a value
    rw [hinsert]
    funext r
    rw [Arena.get?, Array.getElem?_push]
    by_cases hr : r = ⟨a.head⟩
    · subst hr
      rw [if_pos hend, Function.update_self]
      rfl
    · have hslot : r.slot ≠ a.slots.size := fun heq => hr (by rw [hend, ← heq])
      rw [if_neg hslot, Function.update_of_ne hr, Arena.get?]
  · have hlt : a.head < a.slots.size := vacant_lt ⟨next, hnext⟩
    rw [get?_set (b := (a.insert value).2) hlt (by rw [hinsert]), hinsert]
    rfl

theorem remove_fst (a : Arena α) (r : Ref) : (a.remove r).1 = a.get? r := by
  cases hget : a.get? r with
  | none => rw [remove_of_none hget]
  | some value => rw [remove_of_full (get?_eq_some_iff.mp hget)]

theorem get?_remove (a : Arena α) (r : Ref) :
    (a.remove r).2.get? = Function.update a.get? r none := by
  cases hget : a.get? r with
  | none => rw [remove_of_none hget, ← hget, Function.update_eq_self]
  | some value =>
    have hfull := get?_eq_some_iff.mp hget
    have hlt : r.slot < a.slots.size := (Array.getElem?_eq_some_iff.mp hfull).1
    have hslots : (a.remove r).2.slots = a.slots.setIfInBounds r.slot (.free a.head) := by
      rw [remove_of_full hfull]
    exact get?_set hlt hslots

theorem get?_modify (a : Arena α) (r : Ref) (change : α → α) :
    (a.modify r change).get? = Function.update a.get? r ((a.get? r).map change) := by
  cases hget : a.get? r with
  | none =>
    rw [modify_of_none change hget, Option.map_none, ← hget, Function.update_eq_self]
  | some value =>
    have hfull := get?_eq_some_iff.mp hget
    have hlt : r.slot < a.slots.size := (Array.getElem?_eq_some_iff.mp hfull).1
    have hslots : (a.modify r change).slots =
        a.slots.setIfInBounds r.slot (.full (change value)) := by
      rw [modify_of_full change hfull]
    exact get?_set hlt hslots

/-! ## Listing -/

theorem mem_entriesFrom {start : Nat} {slots : List (Slot α)} {r : Ref} {value : α} :
    (r, value) ∈ entriesFrom start slots ↔
      ∃ i, slots[i]? = some (.full value) ∧ r = ⟨start + i⟩ := by
  induction slots generalizing start with
  | nil => simp [entriesFrom]
  | cons slot rest ih =>
    have hshift : ∀ i, start + 1 + i = start + (i + 1) := fun i => by omega
    cases slot with
    | free next =>
      rw [entriesFrom, ih]
      constructor
      · rintro ⟨i, hi, rfl⟩
        exact ⟨i + 1, hi, by rw [hshift]⟩
      · rintro ⟨i, hi, rfl⟩
        cases i with
        | zero => exact absurd (Option.some.inj hi) (by simp)
        | succ i => exact ⟨i, hi, by rw [hshift]⟩
    | full v =>
      rw [entriesFrom, List.mem_cons, ih]
      constructor
      · rintro (heq | ⟨i, hi, rfl⟩)
        · obtain ⟨rfl, rfl⟩ := Prod.mk.inj heq
          exact ⟨0, rfl, rfl⟩
        · exact ⟨i + 1, hi, by rw [hshift]⟩
      · rintro ⟨i, hi, rfl⟩
        cases i with
        | zero =>
          obtain rfl := Slot.full.inj (Option.some.inj hi)
          exact Or.inl rfl
        | succ i => exact Or.inr ⟨i, hi, by rw [hshift]⟩

theorem mem_toList {a : Arena α} {r : Ref} {value : α} :
    (r, value) ∈ a.toList ↔ a.get? r = some value := by
  rw [Arena.toList, mem_entriesFrom, get?_eq_some_iff]
  constructor
  · rintro ⟨i, hi, rfl⟩
    simpa using hi
  · intro h
    exact ⟨r.slot, by simpa using h, by simp⟩

theorem sorted_entriesFrom (start : Nat) (slots : List (Slot α)) :
    (entriesFrom start slots).Pairwise fun x y => x.1.slot < y.1.slot := by
  induction slots generalizing start with
  | nil => exact .nil
  | cons slot rest ih =>
    cases slot with
    | free next => exact ih (start + 1)
    | full v =>
      refine List.pairwise_cons.mpr ⟨?_, ih (start + 1)⟩
      rintro ⟨r, value⟩ hmem
      obtain ⟨i, -, rfl⟩ := mem_entriesFrom.mp hmem
      show start < start + 1 + i
      omega

theorem nodup_refs (a : Arena α) : (a.toList.map Prod.fst).Nodup := by
  refine List.pairwise_map.mpr ((sorted_entriesFrom 0 a.slots.toList).imp fun hlt heq => ?_)
  rw [heq] at hlt
  exact Nat.lt_irrefl _ hlt

theorem length_toList (a : Arena α) : a.toList.length = a.countFull := by
  have hcount : ∀ (start : Nat) (slots : List (Slot α)),
      (entriesFrom start slots).length = slots.countP fun s => s.value?.isSome := by
    intro start slots
    induction slots generalizing start with
    | nil => rfl
    | cons slot rest ih =>
      cases slot with
      | free next =>
        rw [entriesFrom, ih, List.countP_cons_of_neg (by simp [Slot.value?])]
      | full v =>
        rw [entriesFrom, List.length_cons, ih, List.countP_cons_of_pos (by simp [Slot.value?])]
  exact hcount 0 a.slots.toList

/-! ## Any order of uses -/

/-- A use of an arena. -/
inductive Use (α : Type) where
  | insert (value : α)
  | remove (r : Ref)
  | get (r : Ref)
  | modify (r : Ref) (change : α → α)

/-- What a use is answered with. -/
inductive Reply (α : Type) where
  | placed (r : Ref)
  | found (value : Option α)

/-- Makes one use of an arena. A change is answered with what it found. -/
def perform (a : Arena α) : Use α → Reply α × Arena α
  | .insert value => (.placed (a.insert value).1, (a.insert value).2)
  | .remove r => (.found (a.remove r).1, (a.remove r).2)
  | .get r => (.found (a.get? r), a)
  | .modify r change => (.found (a.get? r), a.modify r change)

/-- Makes uses of an arena in order. -/
def performAll (a : Arena α) : List (Use α) → List (Reply α) × Arena α
  | [] => ([], a)
  | use :: rest =>
    let (reply, b) := a.perform use
    let (replies, c) := b.performAll rest
    (reply :: replies, c)

/-- How a map answers a use, and the map behind it. Nothing but the reference that is named or
answered with is touched. -/
inductive MapStep : (Ref → Option α) → Use α → Reply α → (Ref → Option α) → Prop where
  | insert {m : Ref → Option α} {r : Ref} (value : α) (hr : m r = none) :
      MapStep m (.insert value) (.placed r) (Function.update m r (some value))
  | remove (m : Ref → Option α) (r : Ref) :
      MapStep m (.remove r) (.found (m r)) (Function.update m r none)
  | get (m : Ref → Option α) (r : Ref) : MapStep m (.get r) (.found (m r)) m
  | modify (m : Ref → Option α) (r : Ref) (change : α → α) :
      MapStep m (.modify r change) (.found (m r)) (Function.update m r ((m r).map change))

/-- How a map answers uses in order. -/
inductive MapRun : (Ref → Option α) → List (Use α) → List (Reply α) → (Ref → Option α) → Prop where
  | nil (m : Ref → Option α) : MapRun m [] [] m
  | cons {m m' m'' : Ref → Option α} {use : Use α} {reply : Reply α} {uses : List (Use α)}
      {replies : List (Reply α)} (hstep : MapStep m use reply m')
      (hrest : MapRun m' uses replies m'') : MapRun m (use :: uses) (reply :: replies) m''

theorem WellFormed.perform {a : Arena α} (h : a.WellFormed) (use : Use α) :
    (a.perform use).2.WellFormed ∧
      MapStep a.get? use (a.perform use).1 (a.perform use).2.get? := by
  cases use with
  | insert value =>
    refine ⟨h.insert value, ?_⟩
    rw [Arena.perform, h.get?_insert value]
    exact .insert value (h.get?_insert_ref value)
  | remove r =>
    refine ⟨h.remove r, ?_⟩
    rw [Arena.perform, remove_fst, get?_remove]
    exact .remove a.get? r
  | get r => exact ⟨h, .get a.get? r⟩
  | modify r change =>
    refine ⟨h.modify r change, ?_⟩
    rw [Arena.perform, get?_modify]
    exact .modify a.get? r change

theorem WellFormed.performAll {a : Arena α} (h : a.WellFormed) (uses : List (Use α)) :
    (a.performAll uses).2.WellFormed ∧
      MapRun a.get? uses (a.performAll uses).1 (a.performAll uses).2.get? := by
  induction uses generalizing a with
  | nil => exact ⟨h, .nil a.get?⟩
  | cons use rest ih =>
    obtain ⟨hnext, hstep⟩ := h.perform use
    obtain ⟨hlast, hrest⟩ := ih hnext
    exact ⟨hlast, .cons hstep hrest⟩

/-- **However it is used, an arena answers as a map would: its list of free slots is whole, its count
is right, and it lists exactly what it holds, in the order of the slots.** -/
theorem performAll_refines_map (uses : List (Use α)) :
    ∃ replies a, ({} : Arena α).performAll uses = (replies, a) ∧
      MapRun (fun _ => none) uses replies a.get? ∧ a.WellFormed ∧
      (a.head = a.slots.size ∨ Vacant a.slots a.head) ∧
      (∀ r, a.get? r = none → a.remove r = (none, a)) ∧
      (∀ r value, (r, value) ∈ a.toList ↔ a.get? r = some value) ∧
      a.toList.Pairwise fun x y => x.1.slot < y.1.slot := by
  obtain ⟨hwell, hrun⟩ := (wellFormed_empty (α := α)).performAll uses
  have hempty : ({} : Arena α).get? = fun _ => none := by
    funext r
    simp [Arena.get?]
  rw [hempty] at hrun
  refine ⟨_, _, rfl, hrun, hwell, hwell.head, ?_, ?_, ?_⟩
  · intro r hr
    exact remove_of_none hr
  · intro r value
    exact mem_toList
  · exact sorted_entriesFrom 0 _

end SceneSelect.Arena
