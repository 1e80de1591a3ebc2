import SceneSelect.Search.Run
import SceneSelect.Wait.Basic
import SceneSelect.Wait.Settings

/-!
# `Wait/Loop.lean` — a wait from start to end

The loop sleeps for the interval, checks, and goes on until a check is done. What else happens in the
world meanwhile is open: a `World` says how its state changes when the waiting side sleeps, reads
the scene or asks for pending renders to be flushed. Two laws are asked of its clock, that it never
goes back and that a sleep lasts as long as it should, and they are what makes the loop end. How fine
the clock is does not matter: only the settings, which are in milliseconds, depend on its unit.
-/

set_option autoImplicit false

namespace SceneSelect

/-- A world to wait in, with states of type `σ`. -/
structure World (σ : Type) where
  /-- the clock -/
  now : σ → Nat
  host : σ → Host
  /-- the host is asked to commit what it has queued -/
  flush : σ → σ
  sleep : Nat → σ → σ
  /-- what comes of the world when the scene has been read -/
  afterRead : σ → σ
  /-- how many units of the clock make a millisecond -/
  perMs : Nat := 1000
  perMs_pos : 0 < perMs := by decide
  now_le_flush : ∀ s, now s ≤ now (flush s)
  now_le_afterRead : ∀ s, now s ≤ now (afterRead s)
  add_le_sleep : ∀ d s, now s + d ≤ now (sleep d s)

namespace World

variable {σ : Type}

/-- One turn of the loop: a sleep and a check. The scene is read only if the wait is quiet. -/
def turn (W : World σ) (interval : Nat) (search : Host → Except Fault (List Ref)) (w : Wait)
    (s : σ) : Verdict × Wait × σ :=
  let s := W.sleep interval s
  let host := W.host s
  let (verdict, w') := w.check (W.now s) host.frame (search host)
  (verdict, w', if w.isQuiet host.frame then W.afterRead s else s)

theorem deadline_turn (W : World σ) (interval : Nat) (search : Host → Except Fault (List Ref))
    (w : Wait) (s : σ) : (W.turn interval search w s).2.1.deadline = w.deadline :=
  Wait.check_deadline ..

/-- A turn that asks for another one began before the deadline, and its clock went on by the
interval. -/
theorem now_turn {W : World σ} {interval : Nat} {search : Host → Except Fault (List Ref)} {w : Wait}
    {s : σ} (h : (W.turn interval search w s).1 = .again) :
    W.now s + interval < w.deadline ∧
      W.now s + interval ≤ W.now (W.turn interval search w s).2.2 := by
  have hsleep := W.add_le_sleep interval s
  have hlt := Wait.lt_of_check_again h
  refine ⟨by omega, ?_⟩
  unfold turn
  simp only
  split
  · have := W.now_le_afterRead (W.sleep interval s)
    omega
  · exact hsleep

/-- Turns until one is done. Answers with the result, the wait at its end and the state of the
world. -/
def loop (W : World σ) (interval : Nat) (hpos : 0 < interval)
    (search : Host → Except Fault (List Ref)) (w : Wait) (s : σ) :
    Except Fault Outcome × Wait × σ :=
  match h : W.turn interval search w s with
  | (.done result, w', s') => (result, w', s')
  | (.again, w', s') =>
    have hagain : (W.turn interval search w s).1 = .again := by rw [h]
    have hturn := now_turn hagain
    have hdeadline := W.deadline_turn interval search w s
    W.loop interval hpos search w' s'
termination_by w.deadline - W.now s
decreasing_by
  rw [h] at hturn hdeadline
  simp only at hturn hdeadline
  omega

/-- Waits until the host is quiet and the finds of a path are what is waited for. The path is read
before anything else happens. -/
def wait (W : World σ) (settings : WaitSettings) (rules : FindRules) (expression : String)
    (goal : Goal) (timeout : Nat) (s : σ) : Except Fault Outcome × σ :=
  match Host.readPath expression with
  | .error fault => (.error fault, s)
  | .ok path =>
    let s := W.flush s
    let w := Wait.start expression goal timeout (W.host s).frame (W.now s)
    let (result, _, s) :=
      W.loop (settings.intervalIn W.perMs) (settings.intervalIn_pos W.perMs_pos)
        (fun h => h.search rules path .everywhere) w s
    (result, s)

end World

end SceneSelect
