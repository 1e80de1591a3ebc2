import SceneSelect.Proofs.Outcome
import SceneSelect.Proofs.Path.Grammar

/-!
# `Proofs/Path/Depth.lean` — brackets, slashes and the cut into segments

`through d cs` is the bracket depth behind a text that is entered at depth `d`; it is lost when a
bracket closes or a slash stands outside all brackets. Because it is a fold, it composes over
`++` (`through_append`), which counting does not, and it is what both the bracket check and the cut
at slashes compute: **`segments_eq_ok_iff` says that the cut succeeds exactly on balanced texts
whose pieces are balanced, enclose their slashes and are not empty, and that these pieces are the
only ones** — a cut at other slashes would leave a piece that `through` rejects.
-/

set_option autoImplicit false

namespace SceneSelect.Path

open Text

/-! ## The depth behind a text -/

/-- The depth behind a text entered at depth `d`, if all its slashes are enclosed and no bracket
closes outside all brackets. -/
def through (d : Nat) : List Char → Option Nat
  | [] => some d
  | c :: cs => if d = 0 ∧ (c = ']' ∨ c = '/') then none else through (depthAfter c d) cs

@[simp] theorem through_nil (d : Nat) : through d [] = some d := rfl

theorem through_append (d : Nat) (a b : List Char) :
    through d (a ++ b) = (through d a).bind fun e => through e b := by
  induction a generalizing d with
  | nil => rfl
  | cons c cs ih =>
    simp only [List.cons_append, through]
    split
    · rfl
    · exact ih _

theorem through_close (d : Nat) (rest : List Char) :
    through d (']' :: rest) = if d = 0 then none else through (d - 1) rest := by
  rw [through]
  by_cases hd : d = 0
  · rw [if_pos ⟨hd, Or.inl rfl⟩, if_pos hd]
  · rw [if_neg fun h => hd h.1, if_neg hd]
    rfl

theorem through_open (d : Nat) (rest : List Char) :
    through d ('[' :: rest) = through (d + 1) rest := by
  rw [through, if_neg fun h => by simp at h]
  rfl

/-- Text without brackets and slashes can stand anywhere and leaves the depth as it is. -/
def Plain (cs : List Char) : Prop := ∀ c ∈ cs, c ≠ '[' ∧ c ≠ ']' ∧ c ≠ '/'

theorem Plain.of_class {p : Char → Bool} {cs : List Char} (hopen : p '[' = false)
    (hclose : p ']' = false) (hslash : p '/' = false) (h : ∀ c ∈ cs, p c = true) : Plain cs := by
  intro c hc
  have hclass := h c hc
  refine ⟨?_, ?_, ?_⟩
  · intro heq
    rw [heq, hopen] at hclass
    exact absurd hclass (by simp)
  · intro heq
    rw [heq, hclose] at hclass
    exact absurd hclass (by simp)
  · intro heq
    rw [heq, hslash] at hclass
    exact absurd hclass (by simp)

theorem Plain.append {a b : List Char} (ha : Plain a) (hb : Plain b) : Plain (a ++ b) := by
  intro c hc
  rcases List.mem_append.mp hc with h | h
  · exact ha c h
  · exact hb c h

theorem Plain.right {a b : List Char} (h : Plain (a ++ b)) : Plain b :=
  fun c hc => h c (List.mem_append_right a hc)

theorem through_plain {cs : List Char} (h : Plain cs) (d : Nat) : through d cs = some d := by
  induction cs with
  | nil => rfl
  | cons c cs ih =>
    obtain ⟨hopen, hclose, hslash⟩ := h c List.mem_cons_self
    rw [through, if_neg (by simp [hclose, hslash]), depthAfter, if_neg hopen, if_neg hclose]
    exact ih fun x hx => h x (List.mem_cons_of_mem c hx)

theorem plain_of_through {cs : List Char} {e : Nat} (hopen : '[' ∉ cs)
    (h : through 0 cs = some e) : Plain cs ∧ e = 0 := by
  induction cs with
  | nil => exact ⟨by simp [Plain], by simpa [through] using h.symm⟩
  | cons c cs ih =>
    have hc : c ≠ '[' := fun hc => hopen (hc ▸ List.mem_cons_self)
    rw [through] at h
    split at h
    · exact absurd h (by simp)
    · rename_i hn
      simp only [true_and, not_or] at hn
      rw [depthAfter, if_neg hc, if_neg hn.1] at h
      obtain ⟨hplain, he⟩ := ih (fun hm => hopen (List.mem_cons_of_mem c hm)) h
      refine ⟨fun x hx => ?_, he⟩
      rcases List.mem_cons.mp hx with rfl | hx
      · exact ⟨hc, hn.1, hn.2⟩
      · exact hplain x hx

/-! ## Depth by counting -/

theorem count_cons_depthAfter {c : Char} {d : Nat} (h : ¬(d = 0 ∧ c = ']')) (cs : List Char) :
    (c :: cs).count ']' + (depthAfter c d + cs.count '[') =
      cs.count ']' + (d + (c :: cs).count '[') := by
  by_cases hopen : c = '['
  · subst hopen
    simp [depthAfter]
    omega
  · by_cases hclose : c = ']'
    · subst hclose
      have hd : d ≠ 0 := fun hd => h ⟨hd, rfl⟩
      simp [depthAfter]
      omega
    · simp [depthAfter, hopen, hclose]

/-- The fold and the counts say the same: brackets are counted over every prefix, and over the
prefix before every slash. -/
theorem through_eq_some_iff {d e : Nat} {cs : List Char} :
    through d cs = some e ↔
      (∀ before : List Char, before <+: cs → before.count ']' ≤ d + before.count '[') ∧
      cs.count ']' + e = d + cs.count '[' ∧
      ∀ before behind : List Char, cs = before ++ '/' :: behind →
        before.count ']' < d + before.count '[' := by
  induction cs generalizing d with
  | nil => simp [eq_comm]
  | cons c cs ih =>
    rw [through]
    by_cases hstop : d = 0 ∧ (c = ']' ∨ c = '/')
    · -- the fold gives up here, and the prefix that ends here breaks a count
      rw [if_pos hstop]
      obtain ⟨rfl, rfl | rfl⟩ := hstop
      · refine iff_of_false (by simp) fun ⟨hle, _, _⟩ => ?_
        have := hle [']'] (by simp)
        simp at this
      · refine iff_of_false (by simp) fun ⟨_, _, hslash⟩ => ?_
        have := hslash [] cs rfl
        simp at this
    · rw [if_neg hstop, ih]
      have key := count_cons_depthAfter fun h : d = 0 ∧ c = ']' => hstop ⟨h.1, Or.inl h.2⟩
      constructor
      · rintro ⟨hle, heq, hslash⟩
        refine ⟨fun before hb => ?_, by have := key cs; omega, fun before behind hb => ?_⟩
        · rcases List.prefix_cons_iff.mp hb with rfl | ⟨t, rfl, ht⟩
          · simp
          · have := hle t ht
            have := key t
            omega
        · cases before with
          | nil =>
            obtain ⟨rfl, rfl⟩ := List.cons.inj hb
            simp only [List.count_nil, Nat.add_zero]
            exact Nat.pos_of_ne_zero fun hd => hstop ⟨hd, Or.inr rfl⟩
          | cons x t =>
            obtain ⟨rfl, rfl⟩ := List.cons.inj hb
            have := hslash t behind rfl
            have := key t
            omega
      · rintro ⟨hle, heq, hslash⟩
        refine ⟨fun before hb => ?_, by have := key cs; omega, fun before behind hb => ?_⟩
        · have := hle (c :: before) (List.cons_prefix_cons.mpr ⟨rfl, hb⟩)
          have := key before
          omega
        · have := hslash (c :: before) behind (by rw [hb]; rfl)
          have := key before
          omega

theorem through_zero_iff {cs : List Char} :
    through 0 cs = some 0 ↔ Balanced cs ∧ SlashesEnclosed cs := by
  rw [through_eq_some_iff]
  constructor
  · rintro ⟨hle, heq, hslash⟩
    exact ⟨⟨by simpa using hle, by simpa using heq⟩, by simpa [SlashesEnclosed] using hslash⟩
  · rintro ⟨⟨hle, heq⟩, hslash⟩
    exact ⟨by simpa using hle, by simpa using heq, by simpa [SlashesEnclosed] using hslash⟩

/-- Inside brackets a balanced text can stand anywhere, its slashes included. -/
theorem Balanced.through {cs : List Char} (h : Balanced cs) {d : Nat} (hd : 0 < d) :
    through d cs = some d := by
  rw [through_eq_some_iff]
  refine ⟨fun before hb => ?_, ?_, fun before behind hcs => ?_⟩
  · have := h.closed_le before hb
    omega
  · rw [h.closed_eq, Nat.add_comm]
  · have := h.closed_le before (hcs ▸ List.prefix_append before ('/' :: behind))
    omega

theorem Balanced.append {a b : List Char} (ha : Balanced a) (hb : Balanced b) :
    Balanced (a ++ b) := by
  refine ⟨fun before ⟨behind, h⟩ => ?_, ?_⟩
  · -- the prefix ends in the first text, or holds all of it, where its counts are even
    rcases List.append_eq_append_iff.mp h with ⟨t, rfl, -⟩ | ⟨t, rfl, ht⟩
    · exact ha.closed_le before (List.prefix_append before t)
    · have := hb.closed_le t ⟨behind, ht.symm⟩
      have := ha.closed_eq
      simp only [List.count_append]
      omega
  · have := ha.closed_eq
    have := hb.closed_eq
    simp only [List.count_append]
    omega

theorem balanced_slash : Balanced ['/'] := by
  refine ⟨fun before h => ?_, rfl⟩
  rcases List.prefix_cons_iff.mp h with rfl | ⟨t, rfl, ht⟩
  · simp
  · rw [List.prefix_nil.mp ht]
    decide

theorem balanced_intercalate {pieces : List (List Char)} (h : ∀ p ∈ pieces, Balanced p) :
    Balanced (['/'].intercalate pieces) := by
  induction pieces with
  | nil => exact (through_zero_iff.mp rfl).1
  | cons p ps ih =>
    have hp : Balanced p := h p List.mem_cons_self
    by_cases hps : ps = []
    · rw [hps, List.intercalate_singleton]
      exact hp
    · rw [List.intercalate_cons_of_ne_nil hps]
      exact (hp.append balanced_slash).append (ih fun q hq => h q (List.mem_cons_of_mem p hq))

/-! ## The cut at slashes -/

/-- Pieces that keep to their depths: the first leads from depth `d` out of all brackets, and each
further one from there back there. -/
def Pieces (d : Nat) : List (List Char) → Prop
  | [] => False
  | p :: ps => through d p = some 0 ∧ ∀ q ∈ ps, through 0 q = some 0

theorem pieces_zero_iff {pieces : List (List Char)} :
    Pieces 0 pieces ↔ pieces ≠ [] ∧ ∀ p ∈ pieces, through 0 p = some 0 := by
  cases pieces with
  | nil => simp [Pieces]
  | cons p ps => simp [Pieces]

theorem cutSlashes_ne_nil (d : Nat) (cs : List Char) : cutSlashes d cs ≠ [] := by
  induction cs generalizing d with
  | nil => simp [cutSlashes]
  | cons c cs ih =>
    rw [cutSlashes]
    split
    · simp
    · simpa using ih _

theorem intercalate_cutSlashes (d : Nat) (cs : List Char) :
    ['/'].intercalate (cutSlashes d cs) = cs := by
  induction cs generalizing d with
  | nil => simp [cutSlashes]
  | cons c cs ih =>
    rw [cutSlashes]
    split
    · rename_i h
      rw [List.intercalate_cons_of_ne_nil (cutSlashes_ne_nil 0 cs), ih, h.1]
      rfl
    · obtain ⟨p, ps, hp⟩ := List.exists_cons_of_ne_nil (cutSlashes_ne_nil (depthAfter c d) cs)
      have := ih (depthAfter c d)
      rw [hp] at this ⊢
      rw [List.modifyHead_cons, List.intercalate_cons_cons_left, this]

theorem checkBrackets_eq_ok_iff {d opened pos : Nat} {cs : List Char} :
    checkBrackets d opened pos cs = .ok () ↔ Pieces d (cutSlashes d cs) := by
  induction cs generalizing d opened pos with
  | nil =>
    rw [checkBrackets, cutSlashes]
    by_cases hd : d = 0 <;> simp [hd, Pieces]
  | cons c cs ih =>
    rw [checkBrackets, cutSlashes]
    obtain ⟨p, ps, hp⟩ := List.exists_cons_of_ne_nil (cutSlashes_ne_nil (depthAfter c d) cs)
    by_cases hclose : c = ']' ∧ d = 0
    · -- the check fails at this bracket, and the first piece begins with it
      obtain ⟨rfl, rfl⟩ := hclose
      rw [if_pos ⟨rfl, rfl⟩, if_neg (by simp), hp]
      simp [Pieces, through]
    · rw [if_neg hclose, ih]
      by_cases hslash : c = '/' ∧ d = 0
      · obtain ⟨rfl, rfl⟩ := hslash
        obtain ⟨q, qs, hq⟩ := List.exists_cons_of_ne_nil (cutSlashes_ne_nil 0 cs)
        rw [if_pos ⟨rfl, rfl⟩, show depthAfter '/' 0 = 0 from rfl, hq]
        simp [Pieces]
      · rw [if_neg hslash, hp, List.modifyHead_cons, Pieces, Pieces, through, if_neg]
        rintro ⟨hd, hc | hc⟩
        · exact hclose ⟨hc, hd⟩
        · exact hslash ⟨hc, hd⟩

theorem cutSlashes_append {d e : Nat} {p : List Char} (h : through d p = some e)
    (rest : List Char) : cutSlashes d (p ++ rest) = (cutSlashes e rest).modifyHead (p ++ ·) := by
  induction p generalizing d with
  | nil =>
    obtain rfl : d = e := by simpa [through] using h
    rw [List.nil_append]
    cases cutSlashes d rest <;> rfl
  | cons c p ih =>
    rw [through] at h
    split at h
    · exact absurd h (by simp)
    · rename_i hstop
      rw [List.cons_append, cutSlashes, if_neg fun hs => hstop ⟨hs.2, Or.inr hs.1⟩, ih h]
      cases cutSlashes e rest <;> rfl

theorem cutSlashes_intercalate {d : Nat} {pieces : List (List Char)} (h : Pieces d pieces) :
    cutSlashes d (['/'].intercalate pieces) = pieces := by
  induction pieces generalizing d with
  | nil => exact h.elim
  | cons p ps ih =>
    obtain ⟨hp, hps⟩ := h
    cases ps with
    | nil =>
      have := cutSlashes_append hp []
      rw [List.append_nil] at this
      rw [List.intercalate_singleton, this]
      simp [cutSlashes]
    | cons q qs =>
      have hrest : Pieces 0 (q :: qs) :=
        ⟨hps q List.mem_cons_self, fun x hx => hps x (List.mem_cons_of_mem q hx)⟩
      rw [List.intercalate_cons_cons, List.append_assoc, cutSlashes_append hp,
        List.singleton_append, cutSlashes, if_pos ⟨rfl, rfl⟩, ih hrest]
      simp

theorem noneEmpty_eq_ok_iff {cause : SyntaxCause} {spans result : List Span} :
    noneEmpty cause spans = .ok result ↔ result = spans ∧ ∀ s ∈ spans, s.chars ≠ [] := by
  unfold noneEmpty
  cases h : spans.find? Span.isEmpty with
  | none =>
    have hall : ∀ s ∈ spans, s.chars ≠ [] := by simpa [Span.isEmpty] using h
    constructor
    · intro hok
      exact ⟨(Except.ok.inj hok).symm, hall⟩
    · rintro ⟨rfl, -⟩
      rfl
  | some s =>
    have hmem := List.mem_of_find?_eq_some h
    have hempty : s.chars = [] := by simpa [Span.isEmpty] using List.find?_some h
    simp only [reduceCtorEq, false_iff, not_and]
    exact fun _ hall => hall s hmem hempty

theorem forall_chars_layOut {P : List Char → Prop} {gap offset : Nat} {pieces : List (List Char)} :
    (∀ s ∈ Span.layOut gap offset pieces, P s.chars) ↔ ∀ p ∈ pieces, P p := by
  rw [← List.forall_mem_map, Span.map_chars_layOut]

/-- **The cut into segments succeeds exactly on texts that are segments with slashes between them,
each balanced, not empty and with its slashes enclosed, and answers with these segments.** -/
theorem segments_eq_ok_iff {cs : List Char} {spans : List Span} :
    segments cs = .ok spans ↔
      ∃ pieces : List (List Char), pieces ≠ [] ∧ cs = ['/'].intercalate pieces ∧
        (∀ p ∈ pieces, p ≠ [] ∧ through 0 p = some 0) ∧ spans = Span.layOut 1 0 pieces := by
  unfold segments
  rw [bind_eq_ok_iff]
  constructor
  · rintro ⟨_, hcheck, hpass⟩
    obtain ⟨-, hthrough⟩ := pieces_zero_iff.mp (checkBrackets_eq_ok_iff.mp hcheck)
    obtain ⟨rfl, hspans⟩ := noneEmpty_eq_ok_iff.mp hpass
    have hne := (forall_chars_layOut (P := (· ≠ []))).mp hspans
    exact ⟨cutSlashes 0 cs, cutSlashes_ne_nil 0 cs, (intercalate_cutSlashes 0 cs).symm,
      fun p hp => ⟨hne p hp, hthrough p hp⟩, rfl⟩
  · rintro ⟨pieces, hpieces, rfl, hall, rfl⟩
    have hkeep : Pieces 0 pieces := pieces_zero_iff.mpr ⟨hpieces, fun p hp => (hall p hp).2⟩
    have hcut := cutSlashes_intercalate hkeep
    refine ⟨(), checkBrackets_eq_ok_iff.mpr (hcut.symm ▸ hkeep), ?_⟩
    rw [hcut]
    exact noneEmpty_eq_ok_iff.mpr
      ⟨rfl, (forall_chars_layOut (P := (· ≠ []))).mpr fun p hp => (hall p hp).1⟩

end SceneSelect.Path
