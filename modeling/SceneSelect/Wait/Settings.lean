import SceneSelect.Json.Decode
import SceneSelect.Json.Printer
import SceneSelect.Text.Blank
import SceneSelect.Text.Numeral

/-!
# `Wait/Settings.lean` — how long and how often to wait

The interval between two checks and the timeout of a wait that is given none, both as 64-bit
numbers of milliseconds. They are read from JSON or from named variables; a variable that is not set
or holds no number leaves the default. The interval that is used is never below one millisecond.
-/

set_option autoImplicit false

namespace SceneSelect

/-- Interval and default timeout in milliseconds. -/
structure WaitSettings where
  intervalMs : UInt64 := 100
  defaultTimeoutMs : UInt64 := 5000
deriving DecidableEq, Repr, Inhabited

namespace WaitSettings

/-- The variable that the interval is read from. -/
def intervalVariable : String := "SCENE_QUERY_POLL_INTERVAL_MS"

/-- The variable that the timeout is read from. -/
def timeoutVariable : String := "SCENE_QUERY_TIMEOUT_MS"

/-- An unsigned 64-bit number between blanks. -/
def readNumber? (cs : List Char) : Option Nat :=
  Text.Numeral.unsignedBelow? Text.Numeral.unsigned64 (Text.trim cs)

/-- Reads a variable: an unsigned 64-bit number between blanks, else the default. -/
def readVariable (default : UInt64) (value : Option String) : UInt64 :=
  match value.bind fun text => readNumber? text.toList with
  | some n => UInt64.ofNat n
  | none => default

/-- The settings given by variables. -/
def ofVariables (lookup : String → Option String) : WaitSettings :=
  let defaults : WaitSettings := {}
  { intervalMs := readVariable defaults.intervalMs (lookup intervalVariable)
    defaultTimeoutMs := readVariable defaults.defaultTimeoutMs (lookup timeoutVariable) }

/-- The fields of the settings in the order declared. -/
def fieldNames : List String := ["interval_ms", "default_timeout_ms"]

/-- Reads settings; fields that are missing are those of `defaults`, and others are ignored. -/
def ofJson? (defaults : WaitSettings) (v : Json.Value) : Option WaitSettings := do
  let field ← Json.record? fieldNames .ignored v
  let intervalMs ← Json.orDefault defaults.intervalMs Json.Value.uint64? (field "interval_ms")
  let defaultTimeoutMs ←
    Json.orDefault defaults.defaultTimeoutMs Json.Value.uint64? (field "default_timeout_ms")
  pure { intervalMs, defaultTimeoutMs }

/-- Settings are written with both fields. -/
def toJson (s : WaitSettings) : Json.Value :=
  .obj [("interval_ms", Json.Value.ofNat s.intervalMs.toNat),
    ("default_timeout_ms", Json.Value.ofNat s.defaultTimeoutMs.toNat)]

/-- The interval between two checks, in units of which `perMs` make a millisecond. -/
def intervalIn (s : WaitSettings) (perMs : Nat) : Nat := max s.intervalMs.toNat 1 * perMs

/-- The default timeout in the same units. -/
def defaultTimeoutIn (s : WaitSettings) (perMs : Nat) : Nat := s.defaultTimeoutMs.toNat * perMs

/-- The interval in microseconds. -/
def interval (s : WaitSettings) : Nat := s.intervalIn 1000

/-- The default timeout in microseconds. -/
def defaultTimeout (s : WaitSettings) : Nat := s.defaultTimeoutIn 1000

theorem intervalIn_pos (s : WaitSettings) {perMs : Nat} (h : 0 < perMs) : 0 < s.intervalIn perMs :=
  Nat.mul_pos (Nat.lt_of_lt_of_le Nat.zero_lt_one (Nat.le_max_right ..)) h

end WaitSettings

end SceneSelect
