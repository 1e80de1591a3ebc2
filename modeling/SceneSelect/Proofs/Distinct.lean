import Mathlib.Data.List.Nodup
import Mathlib.Data.Set.Function

/-!
# `Proofs/Distinct.lean` — each item once, at its first place

What `List.eraseDups` keeps of a list: a part of it in the same order, no item twice, and everything
when no item was there twice. It commutes with a renaming that keeps items apart, and of lists that have
no item in common it may take each by itself.
-/

set_option autoImplicit false

namespace SceneSelect

theorem eraseDups_sublist {α : Type} [BEq α] (items : List α) : items.eraseDups.Sublist items := by
  match items with
  | [] => exact List.nil_sublist []
  | a :: rest =>
    rw [List.eraseDups_cons]
    exact .cons_cons a ((eraseDups_sublist _).trans List.filter_sublist)
termination_by items.length
decreasing_by exact Nat.lt_succ_of_le (List.length_filter_le ..)

theorem head?_eraseDups {α : Type} [BEq α] (items : List α) :
    items.eraseDups.head? = items.head? := by
  cases items with
  | nil => rfl
  | cons a rest => rw [List.eraseDups_cons, List.head?_cons, List.head?_cons]

variable {α β : Type} [BEq α] [LawfulBEq α]

theorem nodup_eraseDups (items : List α) : items.eraseDups.Nodup := by
  match items with
  | [] => exact List.nodup_nil
  | a :: rest =>
    rw [List.eraseDups_cons]
    refine List.nodup_cons.mpr ⟨fun hmem => ?_, nodup_eraseDups _⟩
    have hfilter := (List.mem_filter.mp (List.mem_eraseDups.mp hmem)).2
    simp at hfilter
termination_by items.length
decreasing_by exact Nat.lt_succ_of_le (List.length_filter_le ..)

theorem eraseDups_of_nodup {items : List α} (h : items.Nodup) : items.eraseDups = items := by
  induction items with
  | nil => rfl
  | cons a rest ih =>
    obtain ⟨ha, hrest⟩ := List.nodup_cons.mp h
    have hall : rest.filter (fun b => !b == a) = rest := by
      refine List.filter_eq_self.mpr fun b hb => ?_
      have hne : b ≠ a := fun heq => ha (heq ▸ hb)
      simpa using hne
    rw [List.eraseDups_cons, hall, ih hrest]

theorem length_eraseDups_lt {items : List α} (h : ¬items.Nodup) :
    items.eraseDups.length < items.length := by
  refine Nat.lt_of_le_of_ne (eraseDups_sublist items).length_le fun heq => h ?_
  rw [← (eraseDups_sublist items).eq_of_length heq]
  exact nodup_eraseDups items

theorem eraseDups_append_of_disjoint {as bs : List α} (h : as.Disjoint bs) :
    (as ++ bs).eraseDups = as.eraseDups ++ bs.eraseDups := by
  have hall : bs.removeAll as = bs := by
    refine List.filter_eq_self.mpr fun b hb => ?_
    have hnot : b ∉ as := fun ha => h ha hb
    simpa using hnot
  rw [List.eraseDups_append, hall]

theorem eraseDups_flatMap {items : List β} {f : β → List α}
    (h : items.Pairwise fun a b => (f a).Disjoint (f b)) :
    (items.flatMap f).eraseDups = items.flatMap fun a => (f a).eraseDups := by
  induction items with
  | nil => rfl
  | cons a rest ih =>
    obtain ⟨ha, hrest⟩ := List.pairwise_cons.mp h
    have hdisjoint : (f a).Disjoint (rest.flatMap f) := by
      intro x hx hmem
      obtain ⟨b, hb, hxb⟩ := List.mem_flatMap.mp hmem
      exact ha b hb hx hxb
    rw [List.flatMap_cons, eraseDups_append_of_disjoint hdisjoint, ih hrest, List.flatMap_cons]

theorem idxOf?_map [BEq β] [LawfulBEq β] {f : α → β} {items : List α} {a : α}
    (h : ∀ b ∈ items, f b = f a ↔ b = a) : (items.map f).idxOf? (f a) = items.idxOf? a := by
  induction items with
  | nil => rfl
  | cons b rest ih =>
    obtain ⟨hb, hrest⟩ := List.forall_mem_cons.mp h
    have hsame : (f b == f a) = (b == a) := by rw [Bool.eq_iff_iff, beq_iff_eq, beq_iff_eq, hb]
    rw [List.map_cons, List.idxOf?_cons, List.idxOf?_cons, ih hrest, hsame]

/-- A renaming that keeps the items apart may be done before or after. -/
theorem eraseDups_map [BEq β] [LawfulBEq β] {f : α → β} {items : List α}
    (h : Set.InjOn f {a | a ∈ items}) : (items.map f).eraseDups = items.eraseDups.map f := by
  match items with
  | [] => rfl
  | a :: rest =>
    have hsame : rest.filter ((fun b => !b == f a) ∘ f) = rest.filter fun b => !b == a := by
      refine List.filter_congr fun b hb => ?_
      have hiff : f b = f a ↔ b = a :=
        ⟨fun heq => h (List.mem_cons_of_mem a hb) List.mem_cons_self heq, congrArg f⟩
      simpa using hiff
    have hrest : Set.InjOn f {b | b ∈ rest.filter fun b => !b == a} :=
      h.mono fun b hb => List.mem_cons_of_mem a (List.mem_filter.mp hb).1
    rw [List.map_cons, List.eraseDups_cons, List.eraseDups_cons, List.filter_map, hsame,
      eraseDups_map hrest, List.map_cons]
termination_by items.length
decreasing_by exact Nat.lt_succ_of_le (List.length_filter_le ..)

end SceneSelect
