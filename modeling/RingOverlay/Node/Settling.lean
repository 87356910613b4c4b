import RingOverlay.Node.Polling
/-!
Time and rest. A node settles by polling its ready tasks in order; when none is left, all timers whose
time has come go off in the order of their deadlines, and so on until nothing more can happen. The
clock moves by jumps.
-/

set_option autoImplicit false
set_option relaxedAutoImplicit false

namespace RingOverlay.Node

def dueTimers (n : Node) : List (Nat × TaskId) :=
  (n.timers.filter (·.1 ≤ n.now)).mergeSort (·.1 ≤ ·.1)

def fireTimers (n : Node) : Node :=
  n.dueTimers.foldl (fun n t => n.expire t.2) { n with timers := n.timers.filter (n.now < ·.1) }

/-- Polls ready tasks, and lets timers go off when none is ready, at most `fuel` times. -/
def settleWithin : (fuel : Nat) → Node → Node
  | 0, n => n
  | fuel + 1, n =>
    match n.ready with
    | id :: rest => settleWithin fuel ({ n with ready := rest }.poll id)
    | [] => if n.dueTimers.isEmpty then n else settleWithin fuel n.fireTimers

def missedBeats (n : Node) : Nat :=
  n.timers.foldr (fun t beats => (n.now - t.1) / max n.config.timing.heartbeatMs 1 + beats) 0

/-- More polls than a node can need until it rests: each heartbeat and each waiting item lets every
policy act a bounded number of times for each of its peers. -/
def settleBound (n : Node) : Nat :=
  let load := n.tasks.length + n.managed.pins.length + n.missedBeats + n.timers.length + 8
  64 * (load * load)

/-- Runs a node until nothing more can happen at the present time. -/
def settle (n : Node) : Node := settleWithin n.settleBound n

def advance (n : Node) (ms : Nat) : Node := { n with now := n.now + ms }

end RingOverlay.Node
