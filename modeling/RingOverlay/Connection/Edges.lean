import RingOverlay.Connection.Basic
import RingOverlay.Packet.Basic
/-!
Edges that record the packets handed to them. An edge can be closed, or fail on every packet.
-/

set_option autoImplicit false
set_option relaxedAutoImplicit false

namespace RingOverlay

inductive EdgeMode where
  | open
  | closed
  | failing (reason : String)
  deriving DecidableEq, Repr

structure RecordingEdge where
  mode : EdgeMode
  sent : List Packet
  deriving DecidableEq, Repr

namespace RecordingEdge

/-- An open edge that has taken nothing. -/
def fresh : RecordingEdge := ⟨.open, []⟩

def remote (e : EdgeId) : Transport := ⟨s!"mock://{e}"⟩

def isClosed (e : RecordingEdge) : Bool := e.mode == .closed

def send (e : RecordingEdge) (p : Packet) : Except EdgeError RecordingEdge :=
  match e.mode with
  | .open => .ok { e with sent := e.sent ++ [p] }
  | .closed => .error .closed
  | .failing reason => .error (.transport reason)

def close (e : RecordingEdge) : RecordingEdge := { e with mode := .closed }

end RecordingEdge

/-- The edges that are known by their identity; all others are open. -/
abbrev EdgeModes := List (EdgeId × EdgeMode)

namespace EdgeModes

def mode (modes : EdgeModes) (e : EdgeId) : EdgeMode := (modes.lookup e).getD .open

def accepts (modes : EdgeModes) (e : EdgeId) : Bool := modes.mode e == .open

def set (modes : EdgeModes) (e : EdgeId) (m : EdgeMode) : EdgeModes :=
  (e, m) :: modes.filter (·.1 != e)

end EdgeModes

end RingOverlay
