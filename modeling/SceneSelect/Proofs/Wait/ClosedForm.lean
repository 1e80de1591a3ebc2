import Mathlib.Logic.Function.Iterate
import Mathlib.Order.Bounds.Basic
import SceneSelect.Proofs.Checked
import SceneSelect.Wait.Loop

/-!
# `Proofs/Wait/ClosedForm.lean` — a whole wait at once

A wait is a little machine: its baseline moves, its checks are counted, and each check decides by
what the others have left. Over the whole course of a wait all of this has a closed form. After `i`
checks the baseline is what the frame counter read at check `i`, so **check `i` is quiet exactly if it
reads what check `i - 1` read**; a check then ends the wait if the deadline has come, or if it is quiet
and its search settles the matter, and what it reports depends on nothing but its own readings.

The course is given in advance, as the readings that all the checks would take, whether or not the
wait gets as far. Nothing is asked of the clock: times that go back change no verdict.

Two numbers of a wait are not made for every course: the deadline is a time that the clock has to be able to
show, and checks are counted in 32 bits. `checkedRun` is the same wait with both sums checked. **It stops if
the deadline is out of reach, or else at check `2 ^ 32`, and is the same wait up to there** (`checkedRun_eq`).
No verdict depends on the count, so a wait whose counter starts again from zero goes on as before.
-/

set_option autoImplicit false

namespace SceneSelect

/-- Does a search settle a wait without the deadline? A fault that may pass settles only a wait for
nothing to be there. -/
def Goal.settledBy (goal : Goal) : Except Fault (List Ref) → Bool
  | .ok found => goal.satisfiedBy found
  | .error fault => !fault.isTransient || goal = .absent

/-- The course of a wait: the time of check `i`, what the frame counter reads then, and what a search
would come to. Number `0` is the start, and its search is of no account. -/
structure Course where
  expression : String
  goal : Goal
  timeout : Nat
  time : Nat → Nat
  frame : Nat → Nat
  search : Nat → Except Fault (List Ref)

namespace Wait

/-- Begins a wait on a clock that shows no time behind `latest`. -/
def startWithin (latest : Nat) (expression : String) (goal : Goal) (timeout frame now : Nat) :
    Checked Wait := do
  let deadline ← Checked.upTo latest (now + timeout)
  pure { expression, goal, started := now, deadline, baseline := frame }

/-- A check whose number must fit the counter. -/
def checkWithin (w : Wait) (now frame : Nat) (search : Except Fault (List Ref)) :
    Checked (Verdict × Wait) := do
  let count ← Checked.next32 w.count
  pure ({ w with count }.look now frame search)

end Wait

namespace Course

/-! ## Check by check -/

/-- The wait after `i` checks. -/
def waitAfter (c : Course) : Nat → Wait
  | 0 => Wait.start c.expression c.goal c.timeout (c.frame 0) (c.time 0)
  | i + 1 => ((c.waitAfter i).check (c.time (i + 1)) (c.frame (i + 1)) (c.search (i + 1))).2

/-- The verdict of check `i`; the start decides nothing. -/
def verdict (c : Course) : Nat → Verdict
  | 0 => .again
  | i + 1 => ((c.waitAfter i).check (c.time (i + 1)) (c.frame (i + 1)) (c.search (i + 1))).1

/-- Check `i` and the wait after it, where the clock shows no time behind `latest` and the counter
must not run over. -/
def checkedRun (c : Course) (latest : Nat) : Nat → Checked (Verdict × Wait)
  | 0 => do
    pure (.again, ← Wait.startWithin latest c.expression c.goal c.timeout (c.frame 0) (c.time 0))
  | i + 1 => do
    let (_, w) ← c.checkedRun latest i
    w.checkWithin (c.time (i + 1)) (c.frame (i + 1)) (c.search (i + 1))

/-! ## At a glance -/

variable (c : Course)

def deadline : Nat := c.time 0 + c.timeout

def elapsed (i : Nat) : Nat := c.time i - c.time 0

/-- Does check `i` read the frame that the one before it read? -/
def Quiet (i : Nat) : Prop := c.frame i = c.frame (i - 1)

instance (i : Nat) : Decidable (c.Quiet i) := inferInstanceAs (Decidable (_ = _))

/-- Does check `i` end the wait, if the wait gets there? -/
def Ends (i : Nat) : Prop :=
  c.deadline ≤ c.time i ∨ c.Quiet i ∧ c.goal.settledBy (c.search i)

instance (i : Nat) : Decidable (c.Ends i) := inferInstanceAs (Decidable (_ ∨ _ ∧ _))

/-- What check `i` reports with nothing to show. -/
def timedOut (i : Nat) : Except Fault Outcome := .error (.timeout c.expression (c.elapsed i))

/-- What check `i` reports with finds that are what is waited for. -/
def found (i : Nat) (nodes : List Ref) : Except Fault Outcome :=
  .ok { nodes, elapsed := c.elapsed i, count := UInt32.ofNat i }

/-- What check `i` reports after a search. -/
def searched (i : Nat) : Except Fault (List Ref) → Except Fault Outcome
  | .ok nodes => if c.goal.satisfiedBy nodes then c.found i nodes else c.timedOut i
  | .error fault =>
    if !fault.isTransient ∨ c.deadline ≤ c.time i then .error fault
    else if c.goal = .absent then c.found i []
    else c.timedOut i

/-- What check `i` reports if it ends the wait. -/
def result (i : Nat) : Except Fault Outcome :=
  if c.Quiet i then c.searched i (c.search i) else c.timedOut i

/-! ## The two agree -/

/-- The wait of the course with a baseline and a number of checks. -/
def waitAt (baseline checks : Nat) : Wait :=
  { expression := c.expression, goal := c.goal, started := c.time 0, deadline := c.deadline,
    baseline, count := UInt32.ofNat checks }

theorem counted_waitAt (b i : Nat) : (c.waitAt b i).counted = c.waitAt b (i + 1) :=
  congrArg (fun count => { c.waitAt b i with count }) (Wait.count_counted rfl)

theorem checks_waitAt (b : Nat) {i : Nat} (hi : i < UInt32.size) : (c.waitAt b i).checks = i :=
  UInt32.toNat_ofNat_of_lt' hi

/-- The invariant of a wait: whatever the verdicts, the baseline after a check is what that check
read. -/
theorem waitAfter_eq (i : Nat) : c.waitAfter i = c.waitAt (c.frame i) i := by
  induction i with
  | zero => rfl
  | succ i ih =>
    rw [waitAfter, ih, Wait.check_snd, counted_waitAt]
    rfl

theorem unsatisfied_waitAt (b i : Nat) :
    (c.waitAt b i).unsatisfied (c.time i) =
      if c.deadline ≤ c.time i then .done (c.timedOut i) else .again := by
  by_cases hlate : c.deadline ≤ c.time i
  · rw [if_pos hlate]
    exact if_neg (by simpa [waitAt] using hlate)
  · rw [if_neg hlate]
    exact if_pos (by simpa [waitAt] using hlate)

theorem judge_waitAt (b i : Nat) (nodes : List Ref) :
    (c.waitAt b i).judge (c.time i) nodes =
      if c.goal.satisfiedBy nodes then .done (c.found i nodes)
      else if c.deadline ≤ c.time i then .done (c.timedOut i) else .again := by
  rw [← unsatisfied_waitAt c b]
  rfl

/-- A search decides at once or leaves the decision to the deadline. -/
theorem judgeSearch_waitAt (b i : Nat) (search : Except Fault (List Ref)) :
    (c.waitAt b i).judgeSearch (c.time i) search =
      if c.deadline ≤ c.time i ∨ c.goal.settledBy search then .done (c.searched i search)
      else .again := by
  cases search with
  | ok nodes =>
    simp only [Wait.judgeSearch, judge_waitAt, Goal.settledBy, searched]
    split <;> simp_all
  | error fault =>
    have hdeadline : (c.waitAt b i).deadline = c.deadline := rfl
    simp only [Wait.judgeSearch, judge_waitAt, Goal.settledBy, searched, hdeadline]
    by_cases hlate : c.deadline ≤ c.time i
    · simp [hlate, Nat.not_lt.mpr hlate]
    · by_cases htransient : fault.isTransient = true
      · -- the fault counts as finding nothing, which settles a wait for absence only
        cases hgoal : c.goal <;>
          simp [htransient, hlate, Nat.lt_of_not_le hlate, Goal.satisfiedBy]
      · simp [htransient]

/-- Each check decides by its own readings and the frame that was read before. -/
theorem verdict_succ (i : Nat) :
    c.verdict (i + 1) = if c.Ends (i + 1) then .done (c.result (i + 1)) else .again := by
  have hquiet : (c.waitAt (c.frame i) (i + 1)).isQuiet (c.frame (i + 1)) =
      decide (c.Quiet (i + 1)) := rfl
  simp only [verdict, waitAfter_eq, Wait.check, Wait.look, counted_waitAt, hquiet,
    decide_eq_true_iff, Ends, result]
  by_cases h : c.Quiet (i + 1)
  · simp only [h, if_true, true_and]
    exact judgeSearch_waitAt c ..
  · simp only [h, if_false, false_and, or_false]
    exact unsatisfied_waitAt c ..

theorem verdict_done_iff {i : Nat} {result : Except Fault Outcome} :
    c.verdict i = .done result ↔ 1 ≤ i ∧ c.Ends i ∧ result = c.result i := by
  cases i with
  | zero => simp [verdict]
  | succ i =>
    rw [verdict_succ]
    by_cases h : c.Ends (i + 1) <;> simp [h, eq_comm]

theorem verdict_again_iff {i : Nat} : c.verdict i = .again ↔ ¬(1 ≤ i ∧ c.Ends i) := by
  cases i with
  | zero => simp [verdict]
  | succ i =>
    rw [verdict_succ]
    by_cases h : c.Ends (i + 1) <;> simp [h]

/-- Do the deadline and the number of check `i` fit, on a clock that shows no time behind `latest`? -/
def Fits (latest i : Nat) : Prop := c.deadline ≤ latest ∧ i < UInt32.size

instance (latest i : Nat) : Decidable (c.Fits latest i) := inferInstanceAs (Decidable (_ ∧ _))

/-- The wait with its sums checked is the same wait as long as they fit, and stops where they do not. -/
theorem checkedRun_eq (latest i : Nat) :
    c.checkedRun latest i =
      if c.Fits latest i then .ok (c.verdict i, c.waitAfter i) else .error .overflow := by
  induction i with
  | zero =>
    rw [checkedRun, Wait.startWithin, Checked.upTo]
    by_cases hdeadline : c.time 0 + c.timeout ≤ latest
    · rw [if_pos hdeadline, if_pos ⟨hdeadline, by decide⟩]
      rfl
    · rw [if_neg hdeadline, if_neg fun h => hdeadline h.1]
      rfl
  | succ i ih =>
    rw [checkedRun, ih]
    by_cases hfits : c.Fits latest i
    · have hcount : (c.waitAfter i).count = UInt32.ofNat i := by rw [waitAfter_eq, waitAt]
      rw [if_pos hfits]
      show (c.waitAfter i).checkWithin _ _ _ = _
      rw [Wait.checkWithin, hcount, Checked.next32_ofNat hfits.2]
      by_cases hnext : i + 1 < UInt32.size
      · rw [if_pos hnext, if_pos ⟨hfits.1, hnext⟩, UInt32.ofNat_add, ← hcount]
        rfl
      · rw [if_neg hnext, if_neg fun h => hnext h.2]
        rfl
    · rw [if_neg hfits, if_neg fun h => hfits ⟨h.1, Nat.lt_of_succ_lt h.2⟩]
      rfl

end Course

/-! ## The loop in a world -/

namespace World

variable {σ : Type} (W : World σ) (interval : Nat) (search : Host → Except Fault (List Ref))

/-- The wait and the world after `i` turns. -/
def afterTurns (w : Wait) (s : σ) (i : Nat) : Wait × σ :=
  (fun p => (W.turn interval search p.1 p.2).2)^[i] (w, s)

/-- One turn more, at the end. -/
theorem afterTurns_succ (w : Wait) (s : σ) (i : Nat) :
    W.afterTurns interval search w s (i + 1) =
      (W.turn interval search (W.afterTurns interval search w s i).1
        (W.afterTurns interval search w s i).2).2 :=
  Function.iterate_succ_apply' ..

/-- One turn more, at the beginning. -/
theorem afterTurns_succ_left (w : Wait) (s : σ) (i : Nat) :
    W.afterTurns interval search w s (i + 1) =
      W.afterTurns interval search (W.turn interval search w s).2.1
        (W.turn interval search w s).2.2 i :=
  Function.iterate_succ_apply ..

/-- The world at check `i`, which comes after a sleep. -/
def atCheck (w : Wait) (s : σ) : Nat → σ
  | 0 => s
  | i + 1 => W.sleep interval (W.afterTurns interval search w s i).2

/-- The wait that begins in a state of the world. -/
def begin (expression : String) (goal : Goal) (timeout : Nat) (s : σ) : Wait :=
  Wait.start expression goal timeout (W.host s).frame (W.now s)

/-- The course that a wait takes in a world. -/
def course (expression : String) (goal : Goal) (timeout : Nat) (s : σ) : Course :=
  let seen := W.atCheck interval search (W.begin expression goal timeout s) s
  { expression, goal, timeout
    time i := W.now (seen i)
    frame i := (W.host (seen i)).frame
    search i := search (W.host (seen i)) }

theorem course_waitAfter (expression : String) (goal : Goal) (timeout : Nat) (s : σ) (i : Nat) :
    (W.course interval search expression goal timeout s).waitAfter i =
      (W.afterTurns interval search (W.begin expression goal timeout s) s i).1 := by
  induction i with
  | zero => rfl
  | succ i ih =>
    rw [Course.waitAfter, ih, afterTurns_succ]
    rfl

/-- The verdict of the turn after `i` others. -/
def verdictAfter (w : Wait) (s : σ) (i : Nat) : Verdict :=
  (W.turn interval search (W.afterTurns interval search w s i).1
    (W.afterTurns interval search w s i).2).1

theorem course_verdict (expression : String) (goal : Goal) (timeout : Nat) (s : σ) (i : Nat) :
    (W.course interval search expression goal timeout s).verdict (i + 1) =
      W.verdictAfter interval search (W.begin expression goal timeout s) s i := by
  rw [Course.verdict, course_waitAfter]
  rfl

/-- The loop ends with the first turn that is done. -/
theorem loop_ends (hpos : 0 < interval) (w : Wait) (s : σ) :
    ∃ n, W.verdictAfter interval search w s n = .done (W.loop interval hpos search w s).1 ∧
      ∀ i < n, W.verdictAfter interval search w s i = .again := by
  induction w, s using World.loop.induct W interval hpos search with
  | case1 w s result w' s' h =>
    refine ⟨0, ?_, fun i hi => absurd hi (Nat.not_lt_zero i)⟩
    have hloop : (W.loop interval hpos search w s).1 = result := by
      rw [loop]
      split
      · next h' => rw [h] at h'; cases h'; rfl
      · next h' => rw [h] at h'; cases h'
    rw [hloop]
    exact congrArg Prod.fst h
  | case2 w s w' s' h _ _ _ ih =>
    obtain ⟨n, hdone, hagain⟩ := ih
    have hnext : ∀ i, W.verdictAfter interval search w s (i + 1) =
        W.verdictAfter interval search w' s' i := fun i => by
      simp only [verdictAfter, afterTurns_succ_left, h]
    have hloop : W.loop interval hpos search w s = W.loop interval hpos search w' s' := by
      rw [loop]
      split
      · next h' => rw [h] at h'; cases h'
      · next h' => rw [h] at h'; cases h'; rfl
    refine ⟨n + 1, by rw [hnext, hloop, hdone], fun i hi => ?_⟩
    cases i with
    | zero => exact congrArg Prod.fst h
    | succ i => rw [hnext, hagain i (by omega)]

/-- A wait ends, and it ends as the closed form of its course says. -/
theorem exists_wait_eq_result (settings : WaitSettings) (rules : FindRules) {expression : String}
    {path : List Path.Step} (hpath : Host.readPath expression = .ok path) (goal : Goal)
    (timeout : Nat) (s : σ) :
    let c := W.course (settings.intervalIn W.perMs) (fun h => h.search rules path .everywhere)
      expression goal timeout (W.flush s)
    ∃ n, IsLeast {i | 1 ≤ i ∧ c.Ends i} n ∧
      (W.wait settings rules expression goal timeout s).1 = c.result n := by
  intro c
  obtain ⟨n, hdone, hagain⟩ := W.loop_ends (settings.intervalIn W.perMs)
    (fun h => h.search rules path .everywhere) (settings.intervalIn_pos W.perMs_pos)
    (W.begin expression goal timeout (W.flush s)) (W.flush s)
  rw [← course_verdict] at hdone
  obtain ⟨-, hends, hresult⟩ := (c.verdict_done_iff).mp hdone
  refine ⟨n + 1, ⟨⟨Nat.le_add_left .., hends⟩, fun i hi => ?_⟩, ?_⟩
  · by_contra hlt
    obtain ⟨i, rfl⟩ := Nat.exists_eq_add_of_le' hi.1
    have hverdict := hagain i (by omega)
    rw [← course_verdict] at hverdict
    exact (c.verdict_again_iff).mp hverdict hi
  · rw [← hresult, wait, hpath]
    rfl

end World

end SceneSelect
