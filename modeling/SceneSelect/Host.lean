import SceneSelect.Scene.Edit

/-!
# `Host.lean` — the host of a scene

A host has a scene or none, and counts frames: one for each scene mounted, one for each commit and
one for each unmounting. A commit without a scene is refused and counts nothing. So two equal
readings of the counter mean that nothing changed in between. Frames are natural numbers: the counter is
not followed beyond 64 bits.
-/

set_option autoImplicit false

namespace SceneSelect

/-- A host with the number of its frame. -/
structure Host where
  scene : Option Scene := none
  frame : Nat := 0
deriving Inhabited

namespace Host

/-- Is there a scene? -/
def isMounted (h : Host) : Bool := h.scene.isSome

/-- Counts a frame in which nothing else happens. -/
def advance (h : Host) : Host := { h with frame := h.frame + 1 }

/-- Did nothing change since the counter read `baseline`? -/
def isQuietSince (h : Host) (baseline : Nat) : Bool := h.frame == baseline

/-- Puts a scene in the place of whatever was there. -/
def mount (h : Host) (scene : Scene) : Host := { scene := some scene, frame := h.frame + 1 }

/-- Drops the scene, and answers with it. -/
def unmount (h : Host) : Option Scene × Host :=
  (h.scene, { scene := none, frame := h.frame + 1 })

/-- Changes the scene in one frame, whatever the change has to say. -/
def commit {α : Type} (h : Host) (change : Scene → α × Scene) : Except Fault α × Host :=
  match h.scene with
  | none => (.error (.notReady .unmounted), h)
  | some scene =>
    let (answer, scene) := change scene
    (.ok answer, { scene := some scene, frame := h.frame + 1 })

/-- Reads the scene. -/
def read {α : Type} (h : Host) (look : Scene → α) : Except Fault α :=
  match h.scene with
  | none => .error (.notReady .unmounted)
  | some scene => .ok (look scene)

/-- Reads the scene with a look that may fail by itself. -/
def tryRead {α : Type} (h : Host) (look : Scene → Except Fault α) : Except Fault α :=
  (h.read look).bind id

end Host

end SceneSelect
