import Mathlib.Data.List.TakeWhile
import SceneSelect.Proofs.Path.Depth
import SceneSelect.Proofs.Text.Slice

/-!
# `Proofs/Path/Joins.lean` — the cut of a group into filter bodies

The reader looks for a join at every `]` from the left; `Joined` says what the bodies are without an
order of search. **The two agree** (`cutJoins_eq_ok_iff`) because no join overlaps another: a join
begins with `]`, ends with `[` and has neither in between, so one that starts inside a body that
holds none cannot reach beyond it (`joinAt?_append`).
-/

set_option autoImplicit false

namespace SceneSelect.Path

open Text

/-! ## One join -/

theorem isWord_and_iff {word : List Char} : isWord "and" word = true ↔ IsAnd word := by
  simp [isWord, IsAnd]

theorem IsAnd.isAlpha {word : List Char} (h : IsAnd word) {c : Char} (hc : c ∈ word) :
    c.isAlpha = true := by
  have hlower : c.toLower ∈ "and".toList := h ▸ List.mem_map_of_mem hc
  by_cases h : c.val ≥ 'A'.val ∧ c.val ≤ 'Z'.val
  · have hupper : c.isUpper = true := decide_eq_true h
    exact Bool.or_eq_true_iff.mpr (.inl hupper)
  · have hsame : c.toLower = c := dif_neg h
    rw [hsame] at hlower
    simp only [String.reduceToList, List.mem_cons, List.not_mem_nil, or_false] at hlower
    rcases hlower with rfl | rfl | rfl <;> decide

theorem joinAt?_eq_some_iff {text word behind : List Char} :
    joinAt? text = some (word, behind) ↔
      text = ']' :: (word ++ '[' :: behind) ∧ ∀ c ∈ word, c.isAlpha = true := by
  constructor
  · intro h
    cases text with
    | nil => exact absurd h (by simp [joinAt?])
    | cons c rest =>
      rw [joinAt?] at h
      split at h
      · rename_i hc
        split at h
        · rename_i behind' hd
          obtain ⟨rfl, rfl⟩ := Prod.mk.inj (Option.some.inj h)
          refine ⟨?_, fun x hx => List.mem_takeWhile_imp hx⟩
          rw [hc, ← hd, List.takeWhile_append_dropWhile]
        · exact absurd h (by simp)
      · exact absurd h (by simp)
  · rintro ⟨rfl, hword⟩
    have hd : (word ++ '[' :: behind).dropWhile Char.isAlpha = '[' :: behind := by
      rw [List.dropWhile_append_of_pos hword]
      rfl
    have ht : (word ++ '[' :: behind).takeWhile Char.isAlpha = word := by
      rw [List.takeWhile_append_of_pos hword, List.takeWhile_cons_of_neg (by decide),
        List.append_nil]
    simp only [joinAt?, if_pos, hd, ht]

theorem JoinFree.tail {c : Char} {cs : List Char} (h : JoinFree (c :: cs)) : JoinFree cs :=
  fun before word behind hcs => h (c :: before) word behind (by rw [hcs]; rfl)

/-- Where a body without joins is followed by nothing or by `]`, no join begins in it. -/
theorem joinAt?_append {c : Char} {body rest : List Char} (hb : JoinFree (c :: body))
    (hrest : ∀ x ∈ rest.head?, x = ']') : joinAt? (c :: (body ++ rest)) = none := by
  by_contra hne
  obtain ⟨⟨word, behind⟩, hjoin⟩ := Option.ne_none_iff_exists'.mp hne
  obtain ⟨heq, hword⟩ := joinAt?_eq_some_iff.mp hjoin
  obtain ⟨rfl, hsplit⟩ := List.cons.inj heq
  rcases List.append_eq_append_iff.mp hsplit with ⟨t, rfl, ht⟩ | ⟨t, rfl, ht⟩
  · -- the body ends in the word: what follows it is part of the join, so it is no `]`
    cases t with
    | nil => exact absurd (hrest '[' (by simp [ht])) (by decide)
    | cons x t =>
      obtain rfl : x = ']' := hrest x (by simp [ht])
      exact absurd (hword ']' (by simp)) (by decide)
  · -- the body reaches behind the word: then the whole join is in it
    cases t with
    | nil =>
      rw [List.nil_append] at ht
      exact absurd (hrest '[' (by rw [← ht]; rfl)) (by decide)
    | cons x t =>
      obtain ⟨rfl, rfl⟩ := List.cons.inj ht
      obtain ⟨y, hy, hna⟩ := hb [] word t rfl
      exact absurd (hword y hy) (by simp [hna])

theorem JoinFree.right {a b : List Char} (h : JoinFree (a ++ b)) : JoinFree b :=
  fun before word behind hb => h (a ++ before) word behind (by rw [hb, List.append_assoc])

/-- In front of a text, characters that close no bracket bring in no join. -/
theorem JoinFree.append {a b : List Char} (ha : ']' ∉ a) (hb : JoinFree b) : JoinFree (a ++ b) := by
  induction a with
  | nil => exact hb
  | cons c a ih =>
    have hrest := ih fun hmem => ha (List.mem_cons_of_mem c hmem)
    intro before word behind hcs
    cases before with
    | nil => exact absurd ((List.cons.inj hcs).1 ▸ List.mem_cons_self) ha
    | cons x before => exact hrest before word behind (List.cons.inj hcs).2

theorem joinFree_of_not_mem {cs : List Char} (h : ']' ∉ cs) : JoinFree cs := by
  have hempty : JoinFree [] := fun before word behind hcs => absurd hcs (by simp)
  have hfree := hempty.append h
  rwa [List.append_nil] at hfree

theorem Plain.joinFree {cs : List Char} (h : Plain cs) : JoinFree cs :=
  joinFree_of_not_mem fun hmem => (h ']' hmem).2.1 rfl

/-! ## The bytes of a join -/

/-- The letters of a join and its two brackets are one byte each. -/
theorem utf8Len_join {word : List Char} (hword : ∀ c ∈ word, c.isAlpha = true) :
    utf8Len (']' :: (word ++ ['['])) = word.length + 2 := by
  have hclose : ']'.utf8Size = 1 := rfl
  have hopen : utf8Len ['['] = 1 := rfl
  rw [utf8Len_cons, utf8Len_append, utf8Len_of_isAlpha hword, hclose, hopen]
  omega

theorem utf8Len_and {word : List Char} (h : IsAnd word) :
    utf8Len (']' :: (word ++ ['['])) = joinLen := by
  have hlen : word.length = 3 := by
    have := congrArg List.length h
    rwa [List.length_map] at this
  rw [utf8Len_join fun c hc => h.isAlpha hc, hlen, joinLen]

/-! ## The cut -/

theorem cutJoins_nil (pos : Nat) : cutJoins pos [] = .ok [[]] := by
  rw [cutJoins]
  rfl

/-- At a join the word decides. -/
theorem cutJoins_of_join {pos : Nat} {text word behind : List Char}
    (h : joinAt? text = some (word, behind)) :
    cutJoins pos text =
      if isWord "and" word then (cutJoins (pos + joinLen) behind).map ([] :: ·)
      else if isWord "or" word then .error ⟨.orJoin, pos⟩
      else .error ⟨.unknownJoin word, pos⟩ := by
  rw [cutJoins]
  split
  · rename_i word' behind' h'
    rw [h] at h'
    obtain ⟨rfl, rfl⟩ := Prod.mk.inj (Option.some.inj h')
    rfl
  · rename_i h'
    exact absurd (h.symm.trans h') (by simp)

theorem cutJoins_join {pos : Nat} {word inside : List Char} (hw : IsAnd word) :
    cutJoins pos (']' :: (word ++ '[' :: inside)) =
      (cutJoins (pos + joinLen) inside).map ([] :: ·) := by
  have hjoin := joinAt?_eq_some_iff.mpr
    (show ']' :: (word ++ '[' :: inside) = _ ∧ _ from ⟨rfl, fun c hc => hw.isAlpha hc⟩)
  rw [cutJoins_of_join hjoin, if_pos (isWord_and_iff.mpr hw)]

theorem cutJoins_cons {pos : Nat} {c : Char} {rest : List Char} (h : joinAt? (c :: rest) = none) :
    cutJoins pos (c :: rest) =
      (cutJoins (pos + c.utf8Size) rest).map (List.modifyHead (c :: ·)) := by
  rw [cutJoins]
  split
  · rename_i h'
    exact absurd (h.symm.trans h') (by simp)
  · rfl

theorem cutJoins_append {pos : Nat} {body rest : List Char} (hb : JoinFree body)
    (hrest : ∀ x ∈ rest.head?, x = ']') :
    cutJoins pos (body ++ rest) =
      (cutJoins (pos + utf8Len body) rest).map (List.modifyHead (body ++ ·)) := by
  induction body generalizing pos with
  | nil =>
    cases h : cutJoins (pos + utf8Len []) rest with
    | error e => simpa [Except.map] using h
    | ok pieces =>
      rw [utf8Len_nil, Nat.add_zero] at h
      rw [List.nil_append, h]
      cases pieces <;> rfl
  | cons c body ih =>
    rw [List.cons_append, cutJoins_cons (joinAt?_append hb hrest), ih hb.tail, utf8Len_cons,
      Nat.add_assoc]
    cases cutJoins (pos + (c.utf8Size + utf8Len body)) rest with
    | error e => rfl
    | ok pieces => cases pieces <;> rfl

theorem cutJoins_of_joined {pos : Nat} {bodies : List (List Char)} {text : List Char}
    (h : Joined bodies text) : cutJoins pos text = .ok bodies := by
  induction h generalizing pos with
  | @one body hb =>
    rw [← List.append_nil body, cutJoins_append hb (by simp), cutJoins_nil]
    rfl
  | @cons body word inside bodies hb hw hr ih =>
    rw [cutJoins_append hb (by simp), cutJoins_join hw, ih]
    simp [Except.map]

theorem Joined.cons_char {c : Char} {bodies : List (List Char)} {text : List Char}
    (hc : joinAt? (c :: text) = none) (h : Joined bodies text) :
    Joined (bodies.modifyHead (c :: ·)) (c :: text) := by
  -- a join in the longer body is one at its first character, or one in the shorter body
  have free : ∀ body rest : List Char, text = body ++ rest → JoinFree body →
      JoinFree (c :: body) := by
    rintro body rest rfl hb before word behind heq
    cases before with
    | nil =>
      obtain ⟨rfl, rfl⟩ := List.cons.inj heq
      by_contra hall
      have hword : ∀ x ∈ word, x.isAlpha = true := by simpa using hall
      have hjoin : joinAt? (']' :: (word ++ '[' :: (behind ++ rest))) = some (word, _) :=
        joinAt?_eq_some_iff.mpr ⟨rfl, hword⟩
      rw [List.append_assoc, List.cons_append] at hc
      exact absurd (hc.symm.trans hjoin) (by simp)
    | cons x before =>
      obtain ⟨-, rfl⟩ := List.cons.inj heq
      exact hb before word behind rfl
  cases h with
  | one hb => exact .one (free text [] (by simp) hb)
  | cons hb hw hr => exact .cons (free _ _ rfl hb) hw hr

theorem joined_of_cutJoins {pos : Nat} {bodies : List (List Char)} {text : List Char}
    (h : cutJoins pos text = .ok bodies) : Joined bodies text := by
  fun_induction cutJoins pos text generalizing bodies with
  | case1 pos text word behind hjoin hlt hand ih =>
    obtain ⟨pieces, hpieces, rfl⟩ := map_eq_ok_iff.mp h
    obtain ⟨rfl, -⟩ := joinAt?_eq_some_iff.mp hjoin
    exact .cons (joinFree_of_not_mem (by simp)) (isWord_and_iff.mp hand) (ih hpieces)
  | case2 => exact absurd h (by simp)
  | case3 => exact absurd h (by simp)
  | case4 pos =>
    obtain rfl := Except.ok.inj h
    exact .one (joinFree_of_not_mem (by simp))
  | case5 pos c rest hjoin ih =>
    obtain ⟨pieces, hpieces, rfl⟩ := map_eq_ok_iff.mp h
    exact (ih hpieces).cons_char hjoin

/-- **The cut succeeds exactly where the text is bodies with joins of `and` between them, and answers
with these bodies.** -/
theorem cutJoins_eq_ok_iff {pos : Nat} {bodies : List (List Char)} {text : List Char} :
    cutJoins pos text = .ok bodies ↔ Joined bodies text :=
  ⟨joined_of_cutJoins, cutJoins_of_joined⟩

/-! ## Bodies with joins between them -/

theorem Joined.joinFree {bodies : List (List Char)} {inside : List Char}
    (h : Joined bodies inside) : ∀ b ∈ bodies, JoinFree b := by
  induction h with
  | one hb => exact List.forall_mem_singleton.mpr hb
  | cons hb _ _ ih => exact List.forall_mem_cons.mpr ⟨hb, ih⟩

theorem Joined.ne_nil {bodies : List (List Char)} {inside : List Char}
    (h : Joined bodies inside) : bodies ≠ [] := by
  cases h <;> simp

theorem joined_intercalate {bodies : List (List Char)} (hne : bodies ≠ [])
    (hfree : ∀ b ∈ bodies, JoinFree b) : Joined bodies ("]AND[".toList.intercalate bodies) := by
  induction bodies with
  | nil => exact absurd rfl hne
  | cons b bs ih =>
    obtain ⟨hb, hbs⟩ := List.forall_mem_cons.mp hfree
    by_cases hnil : bs = []
    · rw [hnil, List.intercalate_singleton]
      exact .one hb
    · have hand : IsAnd "AND".toList := by decide
      rw [List.intercalate_cons_of_ne_nil hnil, List.append_assoc]
      exact .cons hb hand (ih hnil hbs)

end SceneSelect.Path
