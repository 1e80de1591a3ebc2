import SceneSelect.Arena.Ref

/-!
# `Arena/Basic.lean` — an arena with recycled slots

Values live in numbered slots. A slot that became free holds the number of the next free one, and
the arena holds the number of the first, so the free slots form a list that ends at the number of
slots ever made. An insertion takes the head of that list and makes a new slot only when the list
is empty; a removal puts the slot at the head.
-/

set_option autoImplicit false

namespace SceneSelect

/-- A slot of an arena. -/
inductive Slot (α : Type) where
  /-- unused, with the number of the free slot behind it -/
  | free (next : Nat)
  | full (value : α)
deriving Repr

/-- The value in a slot. -/
def Slot.value? {α : Type} : Slot α → Option α
  | .free _ => none
  | .full value => some value

/-- Values in numbered slots. -/
structure Arena (α : Type) where
  slots : Array (Slot α) := #[]
  /-- how many slots are full -/
  live : Nat := 0
  /-- the first free slot -/
  head : Nat := 0
deriving Repr

namespace Arena

variable {α : Type}

instance : Inhabited (Arena α) := ⟨{}⟩

/-- The value at a reference. -/
def get? (a : Arena α) (r : Ref) : Option α := a.slots[r.slot]?.bind Slot.value?

/-- Is there a value at the reference? -/
def contains (a : Arena α) (r : Ref) : Bool := (a.get? r).isSome

/-- Puts a value into the first free slot. The head of the free list is always the number of slots
or a free slot, so the last case does not arise. The slot is taken to be below `Ref.limit`. -/
def insert (a : Arena α) (value : α) : Ref × Arena α :=
  if a.head = a.slots.size then
    (⟨a.head⟩,
      { slots := a.slots.push (.full value), live := a.live + 1, head := a.slots.size + 1 })
  else
    match a.slots[a.head]? with
    | some (.free next) =>
      (⟨a.head⟩,
        { slots := a.slots.setIfInBounds a.head (.full value), live := a.live + 1, head := next })
    | _ => (⟨a.head⟩, a)

/-- Takes the value at a reference out of the arena, if there is one. -/
def remove (a : Arena α) (r : Ref) : Option α × Arena α :=
  match a.slots[r.slot]? with
  | some (.full value) =>
    (some value,
      { slots := a.slots.setIfInBounds r.slot (.free a.head), live := a.live - 1, head := r.slot })
  | _ => (none, a)

/-- Changes the value at a reference, if there is one. -/
def modify (a : Arena α) (r : Ref) (change : α → α) : Arena α :=
  match a.slots[r.slot]? with
  | some (.full value) =>
    { a with slots := a.slots.setIfInBounds r.slot (.full (change value)) }
  | _ => a

/-- The values from slot `start` on, in the order of their slots. -/
def entriesFrom (start : Nat) : List (Slot α) → List (Ref × α)
  | [] => []
  | .free _ :: rest => entriesFrom (start + 1) rest
  | .full value :: rest => (⟨start⟩, value) :: entriesFrom (start + 1) rest

/-- The values with their references, in the order of their slots. -/
def toList (a : Arena α) : List (Ref × α) := entriesFrom 0 a.slots.toList

/-- How many slots are full, counted. -/
def countFull (a : Arena α) : Nat := a.slots.toList.countP fun s => s.value?.isSome

/-- The counters of the arena as text. -/
def summary (a : Arena α) : String :=
  "NodeSlab \x7b len: " ++ toString a.live ++ ", next: " ++ toString a.head ++ ", slots: "
    ++ toString a.slots.size ++ " \x7d"

/-! ## What a removal leaves -/

/-- A value that is taken out leaves a free slot in its place. -/
theorem exists_slots_of_remove {a a' : Arena α} {r : Ref} {value : α}
    (h : a.remove r = (some value, a')) :
    ∃ before after, a.slots.toList = before ++ .full value :: after ∧
      a'.slots.toList = before ++ .free a.head :: after := by
  unfold remove at h
  split at h
  case h_1 v hv =>
    simp only [Prod.mk.injEq, Option.some.injEq] at h
    obtain ⟨rfl, rfl⟩ := h
    obtain ⟨hlt, hget⟩ := Array.getElem?_eq_some_iff.mp hv
    have hlen : r.slot < a.slots.toList.length := by simpa using hlt
    have hl : a.slots.toList[r.slot] = Slot.full v := by simpa using hget
    refine ⟨a.slots.toList.take r.slot, a.slots.toList.drop (r.slot + 1), ?_, ?_⟩
    · rw [← hl, ← List.drop_eq_getElem_cons hlen, List.take_append_drop]
    · rw [Array.toList_setIfInBounds, List.set_eq_take_append_cons_drop, if_pos hlen]
  case h_2 => simp at h

end Arena

end SceneSelect
