import Mathlib.Algebra.Order.Floor.Div
import Mathlib.Order.Bounds.Basic
import Mathlib.Tactic.IntervalCases
import SceneSelect.Proofs.Outcome
import SceneSelect.Proofs.Wait.ClosedForm
import SceneSelect.Proofs.Wait.Interleaving

/-!
# `Proofs/Wait/Bound.lean` — a wait ends in time

Nothing in a wait counts down. It ends because every check looks at the deadline and every check comes an
interval or more after the one before, so that check `i` is made no sooner than `i` intervals after the
start. **The check by which the deadline has come for certain is number `⌈timeout / interval⌉`, or the first
where that is none, and no wait gets beyond it** (`Course.keepsTime`).

Whatever the host does meanwhile, in the middle of a check too, comes down to what the checks read: the
frame that a check compares, the frame that it leaves for the next, which need not be the same, and what
its search comes to. None of these are asked to make sense together. Searches are those of some scene, or
of no scene yet; they have no timeouts of their own to pass on, so a wait gives up at the deadline and not
before.

In a world it is the two laws of its clock that space the checks (`World.time_course`). The clock may count
in any unit. That it can show the deadline, and that the counter holds the number of checks, is asked only
where sums are checked.
-/

set_option autoImplicit false

namespace SceneSelect

/-! ## One check and the deadline -/

namespace Wait

variable {w : Wait} {now : Nat} {expression : String} {elapsed : Nat}

theorem le_of_unsatisfied_timeout
    (h : w.unsatisfied now = .done (.error (.timeout expression elapsed))) : w.deadline ≤ now := by
  unfold unsatisfied at h
  split at h
  · cases h
  · next hlate => exact Nat.le_of_not_lt hlate

theorem le_of_judge_timeout {found : List Ref}
    (h : w.judge now found = .done (.error (.timeout expression elapsed))) : w.deadline ≤ now := by
  unfold judge at h
  split at h
  · cases h
  · exact le_of_unsatisfied_timeout h

/-- A look gives up at the deadline, unless it is its search that gives up. -/
theorem look_eq_timeout {frame : Nat} {search : Except Fault (List Ref)}
    (h : (w.look now frame search).1 = .done (.error (.timeout expression elapsed))) :
    w.deadline ≤ now ∨ search = .error (.timeout expression elapsed) := by
  unfold look at h
  split at h
  · cases search with
    | ok found => exact .inl (le_of_judge_timeout h)
    | error fault =>
      simp only [judgeSearch] at h
      split at h
      · exact .inl (le_of_judge_timeout h)
      · simp only [Verdict.done.injEq, Except.error.injEq] at h
        exact .inr (congrArg _ h)
  · exact .inl (le_of_unsatisfied_timeout h)

end Wait

/-- What a search may come to at a host of any kind: the host has no scene to show yet, or it shows
some scene, and that is searched. -/
def FromHost (rules : FindRules) (path : List Path.Step) (search : Except Fault (List Ref)) : Prop :=
  (∃ cause, search = .error (.notReady cause)) ∨
    ∃ scene : Scene, search = scene.search path .everywhere rules

theorem Host.fromHost_search (h : Host) (rules : FindRules) (path : List Path.Step) :
    FromHost rules path (h.search rules path .everywhere) := by
  obtain ⟨-, hsearch⟩ | ⟨scene, -, hsearch⟩ := h.search_cases rules path .everywhere
  · exact .inl ⟨.unmounted, hsearch⟩
  · exact .inr ⟨scene, hsearch⟩

/-- Searches have no timeouts of their own. -/
theorem FromHost.ne_timeout {rules : FindRules} {path : List Path.Step}
    {search : Except Fault (List Ref)} (h : FromHost rules path search) (expression : String)
    (elapsed : Nat) : search ≠ .error (.timeout expression elapsed) := by
  rintro rfl
  obtain ⟨cause, hcause⟩ | ⟨scene, hscene⟩ := h
  · cases hcause
  · obtain ⟨cause, hcause⟩ := Scene.search_eq_error hscene.symm
    cases hcause

/-! ## Checks that are an interval apart -/

namespace Course

variable (c : Course) {interval : Nat}

/-- The verdict of check `i`, where the check before it left the baseline `baseline (i - 1)`. -/
def verdictFrom (baseline : Nat → Nat) : Nat → Verdict
  | 0 => .again
  | i + 1 =>
    ((c.waitAt (baseline i) i).check (c.time (i + 1)) (c.frame (i + 1)) (c.search (i + 1))).1

/-- Where every check leaves the frame that it compared, this is the verdict of the course. -/
@[simp] theorem verdictFrom_frame (i : Nat) : c.verdictFrom c.frame i = c.verdict i := by
  cases i with
  | zero => rfl
  | succ i => rw [verdict, waitAfter_eq, verdictFrom]

/-- The wait ends with one of the checks up to number `most`. No check at the deadline or later asks for
another, and none before it gives up. -/
structure KeepsTime (baseline : Nat → Nat) (most : Nat) : Prop where
  ends : ∃ n, 1 ≤ n ∧ n ≤ most ∧ (∀ i < n, c.verdictFrom baseline i = .again) ∧
    ∃ result, c.verdictFrom baseline n = .done result
  late : ∀ i, 1 ≤ i → c.deadline ≤ c.time i → c.verdictFrom baseline i ≠ .again
  early : ∀ i expression elapsed, c.time i < c.deadline →
    c.verdictFrom baseline i ≠ .done (.error (.timeout expression elapsed))

theorem verdictFrom_late (baseline : Nat → Nat) {i : Nat} (hi : 1 ≤ i)
    (hlate : c.deadline ≤ c.time i) : c.verdictFrom baseline i ≠ .again := by
  obtain ⟨i, rfl⟩ := Nat.exists_eq_add_of_le' hi
  exact fun h => Nat.not_lt.mpr hlate (Wait.lt_of_check_again h)

theorem verdictFrom_early (baseline : Nat → Nat) {i : Nat} {expression : String} {elapsed : Nat}
    (hsearch : c.search i ≠ .error (.timeout expression elapsed)) (hearly : c.time i < c.deadline) :
    c.verdictFrom baseline i ≠ .done (.error (.timeout expression elapsed)) := by
  cases i with
  | zero => simp [verdictFrom]
  | succ i =>
    intro h
    obtain hlate | hpassed := Wait.look_eq_timeout h
    · exact Nat.not_le.mpr hearly hlate
    · exact hsearch hpassed

theorem time_ge (hclock : ∀ i, c.time i + interval ≤ c.time (i + 1)) (i : Nat) :
    c.time 0 + interval * i ≤ c.time i := by
  induction i with
  | zero => exact Nat.le_refl _
  | succ i ih =>
    have hnext := hclock i
    rw [Nat.mul_succ]
    omega

theorem deadline_le_time (hpos : 0 < interval)
    (hclock : ∀ i, c.time i + interval ≤ c.time (i + 1)) :
    c.deadline ≤ c.time (max 1 (c.timeout ⌈/⌉ interval)) := by
  have hspaced := c.time_ge hclock (max 1 (c.timeout ⌈/⌉ interval))
  have hcovers : c.timeout ≤ interval * (c.timeout ⌈/⌉ interval) := le_smul_ceilDiv hpos
  have hmono : interval * (c.timeout ⌈/⌉ interval) ≤ interval * max 1 (c.timeout ⌈/⌉ interval) :=
    Nat.mul_le_mul_left _ (Nat.le_max_right _ _)
  rw [deadline]
  omega

/-- The deadline has come by check `most`, so the first check that does not ask for another is no later. -/
theorem keepsTime {rules : FindRules} {path : List Path.Step} (baseline : Nat → Nat)
    (hpos : 0 < interval) (hclock : ∀ i, c.time i + interval ≤ c.time (i + 1))
    (hsearch : ∀ i, FromHost rules path (c.search i)) :
    c.KeepsTime baseline (max 1 (c.timeout ⌈/⌉ interval)) where
  ends := by
    have hlast : c.verdictFrom baseline (max 1 (c.timeout ⌈/⌉ interval)) ≠ .again :=
      c.verdictFrom_late baseline (Nat.le_max_left ..) (c.deadline_le_time hpos hclock)
    have hexists : ∃ i, c.verdictFrom baseline i ≠ .again := ⟨_, hlast⟩
    refine ⟨Nat.find hexists, ?_, Nat.find_le hlast, fun i hi => ?_, ?_⟩
    · exact (Nat.find_pos hexists).mpr fun h => h rfl
    · exact not_not.mp (Nat.find_min hexists hi)
    · cases hverdict : c.verdictFrom baseline (Nat.find hexists) with
      | done result => exact ⟨result, rfl⟩
      | again => exact absurd hverdict (Nat.find_spec hexists)
  late i hi hlate := c.verdictFrom_late baseline hi hlate
  early i expression elapsed hearly :=
    c.verdictFrom_early baseline ((hsearch i).ne_timeout expression elapsed) hearly

end Course

/-! ## The loop in a world -/

namespace World

variable {σ : Type} (W : World σ)

theorem now_sleep_le_turn (interval : Nat) (search : Host → Except Fault (List Ref)) (w : Wait)
    (s : σ) : W.now (W.sleep interval s) ≤ W.now (W.turn interval search w s).2.2 := by
  simp only [turn]
  split
  · exact W.now_le_afterRead _
  · exact Nat.le_refl _

/-- Checks are an interval apart, and more where a check takes time. -/
theorem time_course (interval : Nat) (search : Host → Except Fault (List Ref)) (expression : String)
    (goal : Goal) (timeout : Nat) (s : σ) (i : Nat) :
    let c := W.course interval search expression goal timeout s
    c.time i + interval ≤ c.time (i + 1) := by
  intro c
  let w := W.begin expression goal timeout s
  have hcheck : W.now (W.atCheck interval search w s i) ≤
      W.now (W.afterTurns interval search w s i).2 := by
    cases i with
    | zero => exact Nat.le_refl _
    | succ i =>
      rw [afterTurns_succ]
      exact W.now_sleep_le_turn ..
  exact (Nat.add_le_add_right hcheck interval).trans (W.add_le_sleep ..)

/-- **A wait is bounded.** Whatever the host does between the checks, the loop is over after `⌈timeout /
interval⌉` checks at the latest, and after one where that is none; no check at the deadline or later asks
for another, and none before it gives up. If the clock can show the deadline and the counter holds that many
checks, no sum of the wait runs over and the counter shows how many checks were made. All of this stays true
where the host goes on in the middle of a check, and then what the check compares, what it searches and the
baseline that it leaves need not fit. -/
theorem wait_bounded (settings : WaitSettings) (rules : FindRules) {expression : String}
    {path : List Path.Step} (hpath : Host.readPath expression = .ok path) (goal : Goal)
    (timeout : Nat) (s : σ) :
    let interval := settings.intervalIn W.perMs
    let c := W.course interval (fun h => h.search rules path .everywhere) expression goal timeout
      (W.flush s)
    let most := max 1 (timeout ⌈/⌉ interval)
    (∃ n, 1 ≤ n ∧ n ≤ most ∧ (∀ i < n, c.verdict i = .again) ∧
        c.verdict n = .done (W.wait settings rules expression goal timeout s).1 ∧
        (c.waitAfter n).count = UInt32.ofNat n) ∧
      (∀ i, 1 ≤ i → c.deadline ≤ c.time i → c.verdict i ≠ .again) ∧
      (∀ i text elapsed, c.time i < c.deadline →
        c.verdict i ≠ .done (.error (.timeout text elapsed))) ∧
      (∀ latest, c.deadline ≤ latest → most < UInt32.size → ∀ i ≤ most,
        c.checkedRun latest i = .ok (c.verdict i, c.waitAfter i) ∧ (c.waitAfter i).checks = i) ∧
      ∀ (c' : Course) (baseline : Nat → Nat), c'.timeout = timeout →
        (∀ i, c'.time i + interval ≤ c'.time (i + 1)) →
        (∀ i, FromHost rules path (c'.search i)) → c'.KeepsTime baseline most := by
  intro interval c most
  have hpos : 0 < interval := settings.intervalIn_pos W.perMs_pos
  have hkeeps : c.KeepsTime c.frame most :=
    c.keepsTime c.frame hpos (fun i => W.time_course ..) fun i => Host.fromHost_search _ rules path
  refine ⟨?_, fun i hi hlate => ?_, fun i text elapsed hearly => ?_,
    fun latest hlatest hsize i hi => ?_, ?_⟩
  · obtain ⟨n, hleast, hresult⟩ := W.exists_wait_eq_result settings rules hpath goal timeout s
    obtain ⟨m, -, hmost, -, result, hdone⟩ := hkeeps.ends
    obtain ⟨hm, hends, -⟩ := c.verdict_done_iff.mp (c.verdictFrom_frame m ▸ hdone)
    refine ⟨n, hleast.1.1, (hleast.2 ⟨hm, hends⟩).trans hmost, fun i hi => ?_, ?_, ?_⟩
    · exact c.verdict_again_iff.mpr fun h => Nat.not_le.mpr hi (hleast.2 h)
    · exact c.verdict_done_iff.mpr ⟨hleast.1.1, hleast.1.2, hresult⟩
    · rw [Course.waitAfter_eq]
      rfl
  · rw [← c.verdictFrom_frame]
    exact hkeeps.late i hi hlate
  · rw [← c.verdictFrom_frame]
    exact hkeeps.early i text elapsed hearly
  · have hcount : i < UInt32.size := Nat.lt_of_le_of_lt hi hsize
    rw [c.checkedRun_eq, if_pos ⟨hlatest, hcount⟩, c.waitAfter_eq]
    exact ⟨rfl, c.checks_waitAt _ hcount⟩
  · rintro c' baseline rfl hclock hsearch
    exact c'.keepsTime baseline hpos hclock hsearch

/-- A host that commits all the time keeps a wait from searching. With an interval of nothing, which is
one millisecond, and a clock that counts nanoseconds, two milliseconds and one nanosecond are over at the
third check. So they are where more commits come in the middle of every check. -/
theorem wait_bounded_commits :
    let W : World Nat :=
      { now := id, host := fun s => { frame := s }, flush := id, sleep := fun d s => s + d,
        afterRead := id, perMs := 1000000, now_le_flush := Nat.le_refl, now_le_afterRead := Nat.le_refl,
        add_le_sleep := fun _ _ => Nat.le_refl _ }
    let settings : WaitSettings := { intervalMs := 0 }
    let inside : Course :=
      { expression := "panel", goal := .present, timeout := 2000001, time := fun i => 1000000 * i,
        frame := fun i => 2 * i, search := fun _ => .error (.notReady .unmounted) }
    (W.wait settings {} "panel" .present 2000001 0).1 = .error (.timeout "panel" 3000000) ∧
      inside.KeepsTime (fun i => 2 * i + 1) 3 := by
  intro W settings inside
  let path := (Host.readPath "panel").toOption.getD []
  have hpath : Host.readPath "panel" = .ok path := eq_ok_getD (by decide +kernel) []
  let interval := settings.intervalIn W.perMs
  have hinterval : interval = 1000000 := by decide +kernel
  let c := W.course interval (fun h => h.search {} path .everywhere) "panel" .present 2000001 0
  have hfirst : c.verdict 1 = .again := by decide +kernel
  have hsecond : c.verdict 2 = .again := by decide +kernel
  have hthird : c.verdict 3 = .done (.error (.timeout "panel" 3000000)) := by
    decide +kernel
  obtain ⟨⟨n, hn, hmost, -, hdone, -⟩, -, -, -, hinside⟩ :=
    wait_bounded W settings {} hpath .present 2000001 0
  have hthree : max 1 (2000001 ⌈/⌉ interval) = 3 := by decide +kernel
  rw [hthree] at hmost hinside
  refine ⟨?_, hinside inside _ rfl (fun i => ?_) fun i => .inl ⟨_, rfl⟩⟩
  · interval_cases n
    · cases hfirst.symm.trans hdone
    · cases hsecond.symm.trans hdone
    · exact Verdict.done.inj (hdone.symm.trans hthird)
  · show 1000000 * i + interval ≤ 1000000 * (i + 1)
    omega

end World

end SceneSelect
