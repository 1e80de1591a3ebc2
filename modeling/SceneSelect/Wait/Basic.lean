import SceneSelect.Fault

/-!
# `Wait/Basic.lean` — waiting until the scene is quiet

A wait remembers the frame of its last look at the host. A check searches only if no frame was
counted since then, so that what it finds comes from a scene that has come to rest; otherwise it
takes the new frame and leaves the search to the next check. A search satisfies the wait when it
finds something, or when it finds nothing and that is what is waited for. The deadline is looked at
last: a check that comes late may still be satisfied, and one that is not ends the wait.

Times are natural numbers of whatever unit the clock counts. Checks are counted in 32 bits: behind the
largest number comes zero.
-/

set_option autoImplicit false

namespace SceneSelect

/-- What is waited for. -/
inductive Goal where
  | present
  | absent
deriving DecidableEq, Repr, Inhabited

/-- Is this what is waited for? -/
def Goal.satisfiedBy : Goal → List Ref → Bool
  | .present, found => !found.isEmpty
  | .absent, found => found.isEmpty

/-- What a satisfied wait reports. -/
structure Outcome where
  nodes : List Ref
  /-- the time since the start -/
  elapsed : Nat
  /-- the number of checks, those that did not search among them -/
  count : UInt32
deriving DecidableEq, Repr

/-- The number of checks that an outcome shows. -/
def Outcome.checks (o : Outcome) : Nat := o.count.toNat

/-- What a check decides. -/
inductive Verdict where
  | again
  | done (result : Except Fault Outcome)

instance : DecidableEq Verdict
  | .again, .again => .isTrue rfl
  | .done (.ok a), .done (.ok b) => decidable_of_iff (a = b) (by simp)
  | .done (.error a), .done (.error b) => decidable_of_iff (a = b) (by simp)
  | .again, .done _ => .isFalse (by simp)
  | .done _, .again => .isFalse (by simp)
  | .done (.ok _), .done (.error _) => .isFalse (by simp)
  | .done (.error _), .done (.ok _) => .isFalse (by simp)

/-- A wait that is under way. -/
structure Wait where
  expression : String
  goal : Goal
  started : Nat
  deadline : Nat
  /-- the frame at the last look at the host -/
  baseline : Nat
  /-- the number of checks -/
  count : UInt32 := 0
deriving DecidableEq, Repr

namespace Wait

/-- The number of checks that a wait shows. -/
def checks (w : Wait) : Nat := w.count.toNat

/-- Begins a wait at time `now`, when the host is at `frame`. -/
def start (expression : String) (goal : Goal) (timeout frame now : Nat) : Wait :=
  { expression, goal, started := now, deadline := now + timeout, baseline := frame }

/-- Was no frame counted since the last look? -/
def isQuiet (w : Wait) (frame : Nat) : Bool := frame == w.baseline

/-- The time since the start; a clock that went back counts as no time. -/
def elapsed (w : Wait) (now : Nat) : Nat := now - w.started

/-- The verdict when a wait is not satisfied: another check before the deadline, an end after. -/
def unsatisfied (w : Wait) (now : Nat) : Verdict :=
  if now < w.deadline then .again else .done (.error (.timeout w.expression (w.elapsed now)))

/-- The verdict on finds. -/
def judge (w : Wait) (now : Nat) (found : List Ref) : Verdict :=
  if w.goal.satisfiedBy found then
    .done (.ok { nodes := found, elapsed := w.elapsed now, count := w.count })
  else w.unsatisfied now

/-- The verdict on a search. A host that is not ready yet counts as finding nothing until the
deadline; every other fault ends the wait. -/
def judgeSearch (w : Wait) (now : Nat) : Except Fault (List Ref) → Verdict
  | .ok found => w.judge now found
  | .error fault =>
    if fault.isTransient && decide (now < w.deadline) then w.judge now []
    else .done (.error fault)

/-- The wait with one more check counted. -/
def counted (w : Wait) : Wait := { w with count := w.count + 1 }

/-- A look at the host at time `now` and `frame`. The search is of no account unless the wait is
quiet. -/
def look (w : Wait) (now frame : Nat) (search : Except Fault (List Ref)) : Verdict × Wait :=
  if w.isQuiet frame then (w.judgeSearch now search, w)
  else (w.unsatisfied now, { w with baseline := frame })

/-- A check is counted before it looks. -/
def check (w : Wait) (now frame : Nat) (search : Except Fault (List Ref)) : Verdict × Wait :=
  w.counted.look now frame search

theorem count_counted {w : Wait} {n : Nat} (h : w.count = UInt32.ofNat n) :
    w.counted.count = UInt32.ofNat (n + 1) := by
  rw [counted, h, UInt32.ofNat_add]
  rfl

/-- Quiet or not, a look leaves the frame that it was made at. -/
theorem look_snd (w : Wait) (now frame : Nat) (search : Except Fault (List Ref)) :
    (w.look now frame search).2 = { w with baseline := frame } := by
  unfold look
  split
  · next hquiet =>
    obtain rfl := beq_iff_eq.mp hquiet
    rfl
  · rfl

/-- A check is counted and leaves the frame that it was made at. -/
@[simp] theorem check_snd (w : Wait) (now frame : Nat) (search : Except Fault (List Ref)) :
    (w.check now frame search).2 = { w.counted with baseline := frame } :=
  w.counted.look_snd now frame search

theorem check_deadline (w : Wait) (now frame : Nat) (search : Except Fault (List Ref)) :
    (w.check now frame search).2.deadline = w.deadline := by
  rw [check_snd]
  rfl

theorem lt_of_unsatisfied_again {w : Wait} {now : Nat} (h : w.unsatisfied now = .again) :
    now < w.deadline := by
  unfold unsatisfied at h
  split at h
  · assumption
  · simp at h

theorem lt_of_judge_again {w : Wait} {now : Nat} {found : List Ref}
    (h : w.judge now found = .again) : now < w.deadline := by
  unfold judge at h
  split at h
  · simp at h
  · exact lt_of_unsatisfied_again h

theorem lt_of_look_again {w : Wait} {now frame : Nat} {search : Except Fault (List Ref)}
    (h : (w.look now frame search).1 = .again) : now < w.deadline := by
  unfold look at h
  split at h
  · simp only [judgeSearch] at h
    split at h
    · exact lt_of_judge_again h
    · split at h
      · exact lt_of_judge_again h
      · simp at h
  · exact lt_of_unsatisfied_again h

/-- A check that asks for another one comes before the deadline. -/
theorem lt_of_check_again {w : Wait} {now frame : Nat} {search : Except Fault (List Ref)}
    (h : (w.check now frame search).1 = .again) : now < w.deadline :=
  lt_of_look_again (w := w.counted) h

end Wait

end SceneSelect
