import SceneSelect.Arena.Ref
import SceneSelect.Path.Fault
import SceneSelect.Path.Printer

/-!
# `Fault.lean` — what can go wrong

Five kinds of fault: a path that cannot be read, a search that must not have this result, a host
with no scene to search, a wait that took too long, and input that no scene can be made of. Each
carries its cause; `Fault.messageIn` is the only place with wording. Only a host that is not ready may
be ready later, so only that fault is transient.

Times are natural numbers of the unit that their clock counts. Only the wording has to know how many of
them make a millisecond.
-/

set_option autoImplicit false

namespace SceneSelect

/-- Why a search is refused its result. -/
inductive SearchCause where
  /-- a bare index behind the last of `count` matches of a step, where that is not tolerated -/
  | indexOutOfRange (p : Path.Position) (count : Nat) (step : Path.Step)
  | secondChildIndex (step : Path.Step)
  /-- a match without an element, at this place in the scene -/
  | virtualNode (place : String)
  /-- a match with no element in its subtree either -/
  | noElementBelow (place : String)
  | reported (message : String)
deriving DecidableEq, Repr

/-- The wording of a cause. -/
def SearchCause.message : SearchCause → String
  | .indexOutOfRange p count step =>
    "index " ++ p.render ++ " out of range for " ++ toString count ++ " matches of '" ++ step.text
      ++ "'"
  | .secondChildIndex step => "multiple child-index filters on '" ++ step.text ++ "'"
  | .virtualNode place => "virtual node present: " ++ place
  | .noElementBelow place => "virtual node present with no element below it: " ++ place
  | .reported message => message

/-- Why a host has nothing to search. -/
inductive HostCause where
  | unmounted
  | reported (message : String)
deriving DecidableEq, Repr

/-- The wording of a cause. -/
def HostCause.message : HostCause → String
  | .unmounted => "no scene tree is mounted"
  | .reported message => message

/-- Why input does not make a scene. -/
inductive InputCause where
  | missingParent (parent : Ref)
  | textWithChildren (text : String)
  | notKeyedByRoot
  | badSnapshot (root : String)
  | reported (message : String)
deriving DecidableEq, Repr

/-- The wording of a cause. -/
def InputCause.message : InputCause → String
  | .missingParent parent => "parent node " ++ parent.text ++ " does not exist"
  | .textWithChildren text => "text leaf '" ++ text ++ "' cannot have children"
  | .notKeyedByRoot => "scene snapshot must be an object keyed by root"
  | .badSnapshot root => "invalid snapshot for root " ++ root
  | .reported message => message

/-- Anything that can go wrong. -/
inductive Fault where
  | path (fault : Path.SyntaxFault)
  | search (cause : SearchCause)
  | notReady (cause : HostCause)
  /-- a wait for a path that gave up after this time -/
  | timeout (expression : String) (elapsed : Nat)
  | input (cause : InputCause)
deriving DecidableEq, Repr

namespace Fault

/-- The wording of a fault, where `perMs` units of time make a millisecond. -/
def messageIn (perMs : Nat) : Fault → String
  | .path fault => "Query parse error: " ++ fault.message
  | .search cause => "Search error: " ++ cause.message
  | .notReady cause => "Scene host not ready: " ++ cause.message
  | .timeout expression elapsed =>
    "Timed out after " ++ toString (elapsed / perMs) ++ "ms waiting for '" ++ expression ++ "'"
  | .input cause => "Invalid input: " ++ cause.message

/-- The wording of a fault whose time is in microseconds. -/
def message (f : Fault) : String := f.messageIn 1000

/-- May the same attempt succeed later? -/
def isTransient : Fault → Bool
  | .notReady _ => true
  | _ => false

/-- Did a wait give up? -/
def isTimeout : Fault → Bool
  | .timeout _ _ => true
  | _ => false

end Fault

end SceneSelect
