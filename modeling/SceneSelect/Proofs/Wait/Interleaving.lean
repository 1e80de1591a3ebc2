import Mathlib.Data.List.Basic
import SceneSelect.Scene.Snapshot
import SceneSelect.Search.Run
import SceneSelect.Wait.Basic

/-!
# `Proofs/Wait/Interleaving.lean` — waits among the changes of a host

A host is changed by whoever owns it while any number of waits look at it now and then. Everything
that happens is an event, and **events come in any order**: scenes are mounted and unmounted, commits
go through or are refused, reads look and leave no trace, waits begin and check.

The frame counter counts exactly the events that change the host, so two equal readings have no
change between them. A wait keeps the reading of its last look. When it ends well it has just seen the
same reading again, and so its finds are those of a search made on the spot, of the scene that was
there at the last look too.
-/

set_option autoImplicit false

namespace SceneSelect

/-! ## Checks that end well -/

namespace Wait

variable {w : Wait} {now : Nat} {outcome : Outcome}

theorem unsatisfied_ne_ok : w.unsatisfied now ≠ .done (.ok outcome) := by
  unfold unsatisfied
  split <;> simp

theorem judge_eq_ok {found : List Ref} (h : w.judge now found = .done (.ok outcome)) :
    w.goal.satisfiedBy found ∧ outcome.nodes = found ∧ outcome.count = w.count := by
  unfold judge at h
  split at h
  · next hsatisfied =>
    simp only [Verdict.done.injEq, Except.ok.injEq] at h
    subst h
    exact ⟨hsatisfied, rfl, rfl⟩
  · exact absurd h unsatisfied_ne_ok

/-- A look that ends well is quiet, and its finds are those of its search or there is nothing to
search yet. -/
theorem look_eq_ok {frame : Nat} {search : Except Fault (List Ref)}
    (h : (w.look now frame search).1 = .done (.ok outcome)) :
    frame = w.baseline ∧ outcome.count = w.count ∧
      (search = .ok outcome.nodes ∨
        outcome.nodes = [] ∧ w.goal = .absent ∧ ∃ fault, search = .error fault ∧ fault.isTransient) := by
  unfold look at h
  split at h
  · next hquiet =>
    refine ⟨beq_iff_eq.mp hquiet, ?_⟩
    cases search with
    | ok found =>
      obtain ⟨-, rfl, hcount⟩ := judge_eq_ok h
      exact ⟨hcount, .inl rfl⟩
    | error fault =>
      simp only [judgeSearch] at h
      split at h
      · next htransient =>
        obtain ⟨hsatisfied, hnodes, hcount⟩ := judge_eq_ok h
        refine ⟨hcount, .inr ⟨hnodes, ?_, fault, rfl, (Bool.and_eq_true_iff.mp htransient).1⟩⟩
        cases hgoal : w.goal with
        | absent => rfl
        | present => simp [hgoal, Goal.satisfiedBy] at hsatisfied
      · cases h
  · exact absurd h unsatisfied_ne_ok

end Wait

/-! ## Searches that fail -/

theorem Scene.search_eq_error {s : Scene} {rules : FindRules} {path : List Path.Step} {scope : Scope}
    {fault : Fault} (hsearch : s.search path scope rules = .error fault) :
    ∃ cause, fault = .search cause := by
  unfold Scene.search at hsearch
  cases hfound : (Area.find ⟨s, scope.tops s⟩ rules.strictIndex path).bind fun found =>
      s.applyRule found rules.element with
  | ok found => simp [hfound, Except.mapError] at hsearch
  | error cause =>
    simp only [hfound, Except.mapError, Except.error.injEq] at hsearch
    exact ⟨cause, hsearch.symm⟩

/-- A search at a host is one of its scene, if it has one. -/
theorem Host.search_cases (h : Host) (rules : FindRules) (path : List Path.Step) (scope : Scope) :
    h.scene = none ∧ h.search rules path scope = .error (.notReady .unmounted) ∨
      ∃ s, h.scene = some s ∧ h.search rules path scope = s.search path scope rules := by
  cases hscene : h.scene with
  | none => exact .inl ⟨rfl, by simp [Host.search, tryRead, read, hscene, Except.bind]⟩
  | some s => exact .inr ⟨s, rfl, by simp [Host.search, tryRead, read, hscene, Except.bind]⟩

/-- A search may succeed later only where there is nothing to search now. -/
theorem Host.scene_eq_none_of_search {h : Host} {rules : FindRules} {path : List Path.Step}
    {scope : Scope} {fault : Fault} (hsearch : h.search rules path scope = .error fault)
    (htransient : fault.isTransient) : h.scene = none := by
  obtain ⟨hnone, -⟩ | ⟨s, -, hsame⟩ := h.search_cases rules path scope
  · exact hnone
  · obtain ⟨cause, rfl⟩ := Scene.search_eq_error (hsame.symm.trans hsearch)
    simp [Fault.isTransient] at htransient

/-! ## Sessions -/

/-- A wait that is under way, with the rules of its searches and the path that its expression reads
as. -/
structure Waiting where
  wait : Wait
  rules : FindRules
  path : List Path.Step
  reads : Host.readPath wait.expression = .ok path

namespace Waiting

/-- Begins a wait at a host, unless its expression cannot be read. -/
def begin? (h : Host) (rules : FindRules) (expression : String) (goal : Goal)
    (timeout now : Nat) : Option Waiting :=
  match hreads : Host.readPath expression with
  | .error _ => none
  | .ok path =>
    some { wait := Wait.start expression goal timeout h.frame now, rules, path, reads := hreads }

/-- A check of a wait, with the host that it is made at. -/
def verdict (w : Waiting) (h : Host) (now : Nat) : Verdict :=
  (w.wait.check now h.frame (h.search w.rules w.path .everywhere)).1

/-- The wait after a check. -/
def checked (w : Waiting) (h : Host) (now : Nat) : Waiting where
  wait := (w.wait.check now h.frame (h.search w.rules w.path .everywhere)).2
  rules := w.rules
  path := w.path
  reads := by rw [Wait.check_snd]; exact w.reads

theorem checked_wait (w : Waiting) (h : Host) (now : Nat) :
    (w.checked h now).wait = { w.wait.counted with baseline := h.frame } :=
  Wait.check_snd ..

end Waiting

/-- A host and the waits at it, by number. -/
structure Session where
  host : Host
  waits : Nat → Option Waiting

/-- What may happen next. What a host commits when it is asked to flush is an event of its own. -/
inductive Event : Type 1 where
  | mount (scene : Scene)
  | commit {α : Type} (change : Scene → α × Scene)
  | unmount
  | read {α : Type} (look : Scene → Except Fault α)
  | begin (id : Nat) (rules : FindRules) (expression : String) (goal : Goal) (timeout now : Nat)
  | check (id now : Nat)

namespace Event

/-- Does the event change the host? A commit needs a scene. -/
def changes (h : Host) : Event → Bool
  | .mount _ | .unmount => true
  | .commit _ => h.isMounted
  | .read _ | .begin .. | .check .. => false

/-- Is this the beginning of wait `id`? -/
def begins (id : Nat) : Event → Bool
  | .begin id' .. => id' == id
  | _ => false

/-- Is this a check of wait `id`? -/
def checks (id : Nat) : Event → Bool
  | .check id' _ => id' == id
  | _ => false

end Event

namespace Session

/-- One event. -/
def step (s : Session) : Event → Session
  | .mount scene => { s with host := s.host.mount scene }
  | .commit change => { s with host := (s.host.commit change).2 }
  | .unmount => { s with host := s.host.unmount.2 }
  | .read _ => s
  | .begin id rules expression goal timeout now =>
    { s with
      waits := Function.update s.waits id
        (Waiting.begin? s.host rules expression goal timeout now) }
  | .check id now =>
    { s with
      waits := Function.update s.waits id ((s.waits id).map fun w => w.checked s.host now) }

/-- Events one after another. -/
def run (s : Session) (events : List Event) : Session := events.foldl step s

/-- How many of the events change the host, each at its turn? -/
def changes : Session → List Event → Nat
  | _, [] => 0
  | s, e :: events => (e.changes s.host).toNat + (s.step e).changes events

/-- The verdict of a check of wait `id`, if there is such a wait. -/
def verdict? (s : Session) (id now : Nat) : Option Verdict :=
  (s.waits id).map fun w => w.verdict s.host now

@[simp] theorem run_nil (s : Session) : s.run [] = s := rfl

@[simp] theorem run_cons (s : Session) (e : Event) (events : List Event) :
    s.run (e :: events) = (s.step e).run events := rfl

theorem run_append (s : Session) (events more : List Event) :
    s.run (events ++ more) = (s.run events).run more := List.foldl_append

/-! ## What an event does to the host -/

/-- An event that changes the host counts one frame, and any other leaves the host alone. -/
theorem step_frame (s : Session) (e : Event) :
    (s.step e).host.frame = s.host.frame + (e.changes s.host).toNat ∧
      (e.changes s.host = false → (s.step e).host = s.host) := by
  cases e with
  | mount scene => exact ⟨rfl, nofun⟩
  | unmount => exact ⟨rfl, nofun⟩
  | commit change =>
    cases hscene : s.host.scene with
    | none => simp [step, Event.changes, Host.commit, Host.isMounted, hscene]
    | some scene => simp [step, Event.changes, Host.commit, Host.isMounted, hscene]
  | read look => exact ⟨rfl, fun _ => rfl⟩
  | begin id rules expression goal timeout now => exact ⟨rfl, fun _ => rfl⟩
  | check id now => exact ⟨rfl, fun _ => rfl⟩

/-- The frame counter counts the changes of a run. -/
theorem run_frame (s : Session) (events : List Event) :
    (s.run events).host.frame = s.host.frame + s.changes events := by
  induction events generalizing s with
  | nil => rfl
  | cons e events ih =>
    rw [run_cons, ih, (s.step_frame e).1, changes]
    omega

theorem run_host_of_changes (s : Session) (events : List Event) (h : s.changes events = 0) :
    (s.run events).host = s.host := by
  induction events generalizing s with
  | nil => rfl
  | cons e events ih =>
    obtain ⟨hfirst, hrest⟩ := Nat.add_eq_zero_iff.mp h
    rw [run_cons, ih _ hrest, (s.step_frame e).2 (Bool.toNat_eq_zero.mp hfirst)]

/-- Two equal readings have no change between them. -/
theorem changes_of_frame_eq (s : Session) (events : List Event)
    (h : (s.run events).host.frame = s.host.frame) : s.changes events = 0 := by
  have hframe := s.run_frame events
  omega

/-! ## What an event does to a wait -/

theorem step_waits (s : Session) (e : Event) (id : Nat) (hbegins : e.begins id = false)
    (hchecks : e.checks id = false) : (s.step e).waits id = s.waits id := by
  cases e with
  | mount | unmount | commit | read => rfl
  | begin id' =>
    exact Function.update_of_ne (Ne.symm (by simpa [Event.begins] using hbegins)) ..
  | check id' =>
    exact Function.update_of_ne (Ne.symm (by simpa [Event.checks] using hchecks)) ..

/-- A wait stays as it is while it is not looked after. -/
theorem run_waits (s : Session) (events : List Event) (id : Nat)
    (h : ∀ e ∈ events, e.begins id = false ∧ e.checks id = false) :
    (s.run events).waits id = s.waits id := by
  induction events generalizing s with
  | nil => rfl
  | cons e events ih =>
    obtain ⟨⟨hbegins, hchecks⟩, hrest⟩ := List.forall_mem_cons.mp h
    rw [run_cons, ih _ hrest, s.step_waits e id hbegins hchecks]

/-- What is known of the wait with number `id`, if it is there: what it was begun with, and how often
it was checked. -/
def Keeps (s : Session) (id : Nat) (rules : FindRules) (expression : String) (goal : Goal)
    (checks : Nat) : Prop :=
  ∀ w ∈ s.waits id, w.rules = rules ∧ w.wait.expression = expression ∧ w.wait.goal = goal ∧
    w.wait.count = UInt32.ofNat checks

/-- The wait with number `id`, if it is there, has just looked at the host. -/
def LooksNow (s : Session) (id : Nat) : Prop := ∀ w ∈ s.waits id, w.wait.baseline = s.host.frame

theorem begin_eq_some {h : Host} {rules : FindRules} {expression : String} {goal : Goal}
    {timeout now : Nat} {w : Waiting}
    (hw : Waiting.begin? h rules expression goal timeout now = some w) :
    w.rules = rules ∧ w.wait = Wait.start expression goal timeout h.frame now := by
  unfold Waiting.begin? at hw
  split at hw
  · cases hw
  · cases hw
    exact ⟨rfl, rfl⟩

section

variable {s : Session} {id : Nat} {rules : FindRules} {expression : String} {goal : Goal}

@[simp] theorem step_begin_waits (timeout now : Nat) :
    (s.step (.begin id rules expression goal timeout now)).waits id =
      Waiting.begin? s.host rules expression goal timeout now :=
  Function.update_self ..

@[simp] theorem step_check_waits (now : Nat) :
    (s.step (.check id now)).waits id = (s.waits id).map fun w => w.checked s.host now :=
  Function.update_self ..

theorem keeps_begin (timeout now : Nat) :
    (s.step (.begin id rules expression goal timeout now)).Keeps id rules expression goal 0 := by
  intro w hw
  obtain ⟨hrules, hwait⟩ := begin_eq_some (by simpa using hw)
  simp [hrules, hwait, Wait.start]

theorem looksNow_begin (timeout now : Nat) :
    (s.step (.begin id rules expression goal timeout now)).LooksNow id := by
  intro w hw
  obtain ⟨-, hwait⟩ := begin_eq_some (by simpa using hw)
  rw [hwait]
  rfl

theorem looksNow_check (now : Nat) : (s.step (.check id now)).LooksNow id := by
  intro w hw
  obtain ⟨w₀, -, rfl⟩ := Option.map_eq_some_iff.mp (by simpa using hw)
  rw [Waiting.checked_wait]
  rfl

theorem Keeps.step {k : Nat} (h : s.Keeps id rules expression goal k) (e : Event)
    (hbegins : e.begins id = false) :
    (s.step e).Keeps id rules expression goal (k + (e.checks id).toNat) := by
  cases hchecks : e.checks id with
  | false => simpa [Keeps, s.step_waits e id hbegins hchecks] using h
  | true =>
    cases e with
    | check id' now =>
      obtain rfl : id' = id := by simpa [Event.checks] using hchecks
      intro w hw
      obtain ⟨w₀, hw₀, rfl⟩ := Option.map_eq_some_iff.mp (by simpa using hw)
      obtain ⟨hrules, hexpression, hgoal, hk⟩ := h w₀ hw₀
      rw [Waiting.checked_wait]
      exact ⟨hrules, hexpression, hgoal, Wait.count_counted hk⟩
    | mount | commit | unmount | read | begin => simp [Event.checks] at hchecks

theorem Keeps.run {k : Nat} {events : List Event} (h : s.Keeps id rules expression goal k)
    (hbegins : ∀ e ∈ events, e.begins id = false) :
    (s.run events).Keeps id rules expression goal (k + events.countP (Event.checks id)) := by
  induction events generalizing s k with
  | nil => exact h
  | cons e events ih =>
    obtain ⟨hfirst, hrest⟩ := List.forall_mem_cons.mp hbegins
    have hcount : (e :: events).countP (Event.checks id) =
        (e.checks id).toNat + events.countP (Event.checks id) := by
      rw [List.countP_cons, Nat.add_comm]
      cases e.checks id <;> rfl
    rw [hcount, ← Nat.add_assoc]
    exact ih (h.step e hfirst) hrest

theorem keeps_run_begin {timeout started : Nat} {earlier : List Event}
    (hbegins : ∀ e ∈ earlier, e.begins id = false) :
    (s.run (.begin id rules expression goal timeout started :: earlier)).Keeps id rules expression
      goal (earlier.countP (Event.checks id)) := by
  rw [run_cons, ← Nat.zero_add (earlier.countP _)]
  exact (keeps_begin timeout started).run hbegins

theorem looksNow_run_begin {timeout started : Nat} {earlier : List Event}
    (hearlier : earlier = [] ∨ ∃ front time, earlier = front ++ [.check id time]) :
    (s.run (.begin id rules expression goal timeout started :: earlier)).LooksNow id := by
  obtain rfl | ⟨front, time, rfl⟩ := hearlier
  · exact looksNow_begin timeout started
  · rw [← List.cons_append, run_append]
    exact looksNow_check time

/-- A check that ends well sees the host that the last look saw, and finds what a search finds. -/
theorem eq_ok_of_looksNow {mid : List Event} {k now : Nat} {outcome : Outcome}
    (hlooks : s.LooksNow id) (hkeeps : s.Keeps id rules expression goal k)
    (hmid : ∀ e ∈ mid, e.begins id = false ∧ e.checks id = false)
    (hdone : (s.run mid).verdict? id now = some (.done (.ok outcome))) :
    outcome.count = UInt32.ofNat (k + 1) ∧ s.changes mid = 0 ∧ (s.run mid).host = s.host ∧
      ((s.run mid).host.findAll rules expression .everywhere = .ok outcome.nodes ∨
        outcome.nodes = [] ∧ (s.run mid).host.scene = none ∧ goal = .absent) := by
  obtain ⟨w, hw, hverdict⟩ := Option.map_eq_some_iff.mp hdone
  rw [s.run_waits mid id hmid] at hw
  obtain ⟨rfl, rfl, rfl, hk⟩ := hkeeps w hw
  obtain ⟨hframe, hcount, hsearch⟩ := Wait.look_eq_ok hverdict
  have hquiet : s.changes mid = 0 := s.changes_of_frame_eq mid (hframe.trans (hlooks w hw))
  refine ⟨hcount.trans (Wait.count_counted hk), hquiet, s.run_host_of_changes mid hquiet, ?_⟩
  obtain hfound | ⟨hnodes, hgoal, fault, hfault, htransient⟩ := hsearch
  · left
    rw [Host.findAll, w.reads]
    exact hfound
  · exact .inr ⟨hnodes, Host.scene_eq_none_of_search hfault htransient, hgoal⟩

end

/-- **Quiescence is safe in any order of events.** The frame counter counts the changes of the host,
so equal readings mean the same scene. A wait whose check ends well was last looked after at this very
host, and its finds are those of a search made now, unless there is no scene and nothing was to be
there. -/
theorem quiescence_safe (s : Session) :
    (∀ e, (s.step e).host.frame = s.host.frame + (e.changes s.host).toNat ∧
        (e.changes s.host = false → (s.step e).host = s.host)) ∧
      (∀ pre mid, (s.run pre).host.frame ≤ (s.run (pre ++ mid)).host.frame ∧
        ((s.run pre).host.frame = (s.run (pre ++ mid)).host.frame →
          (s.run pre).host.scene = (s.run (pre ++ mid)).host.scene)) ∧
      ∀ id rules expression goal timeout started earlier mid now outcome,
        (∀ e ∈ earlier ++ mid, e.begins id = false) →
        (earlier = [] ∨ ∃ front time, earlier = front ++ [.check id time]) →
        (∀ e ∈ mid, e.checks id = false) →
        let last := s.run (.begin id rules expression goal timeout started :: earlier)
        let this := last.run mid
        this.verdict? id now = some (.done (.ok outcome)) →
        outcome.count = UInt32.ofNat (earlier.countP (Event.checks id) + 1) ∧
          last.changes mid = 0 ∧ this.host = last.host ∧
          (this.host.findAll rules expression .everywhere = .ok outcome.nodes ∨
            outcome.nodes = [] ∧ this.host.scene = none ∧ goal = .absent) := by
  refine ⟨s.step_frame, fun pre mid => ?_, ?_⟩
  · rw [run_append]
    refine ⟨?_, fun h => ?_⟩
    · rw [run_frame (s.run pre)]
      exact Nat.le_add_right ..
    · have hquiet := (s.run pre).changes_of_frame_eq mid h.symm
      rw [run_host_of_changes _ mid hquiet]
  · intro id rules expression goal timeout started earlier mid now outcome hbegins hearlier hmid last
      this hdone
    obtain ⟨hbefore, hafter⟩ := List.forall_mem_append.mp hbegins
    exact eq_ok_of_looksNow (looksNow_run_begin hearlier) (keeps_run_begin hbefore)
      (fun e he => ⟨hafter e he, hmid e he⟩) hdone

/-- A wait that begins before there is a scene: the mounting is seen by the first check, which takes
the new reading, and the second check finds the panel. -/
theorem quiescence_safe_mounted :
    let rules : FindRules := {}
    let scene := (Scene.ofSnapshots [("main", .node { tag := some "panel" } [])]).toOption.getD {}
    let s : Session := { host := {}, waits := fun _ => none }
    let earlier : List Event := [.mount scene, .check 0 10]
    let mid : List Event := [.read fun s => s.search [] .everywhere rules, .check 1 15]
    let last := s.run (.begin 0 rules "panel" .present 100 0 :: earlier)
    let outcome : Outcome := { nodes := [⟨0⟩], elapsed := 20, count := 2 }
    (last.run mid).verdict? 0 20 = some (.done (.ok outcome)) ∧
      last.changes mid = 0 ∧ (last.run mid).host = last.host ∧
      ((last.run mid).host.findAll rules "panel" .everywhere = .ok [⟨0⟩] ∨
        outcome.nodes = [] ∧ (last.run mid).host.scene = none ∧ Goal.present = .absent) := by
  intro rules scene s earlier mid last outcome
  have hdone : (last.run mid).verdict? 0 20 = some (.done (.ok outcome)) := by decide +kernel
  obtain ⟨-, hquiet, hhost, hfound⟩ := (quiescence_safe s).2.2 0 rules "panel" .present 100 0 earlier
    mid 20 outcome (by decide) (.inr ⟨[.mount scene], 10, rfl⟩) (by decide) hdone
  exact ⟨hdone, hquiet, hhost, hfound⟩

end Session
end SceneSelect
