import RingOverlay.Config.Basic
import RingOverlay.Rpc.Basic
import RingOverlay.Table.View
/-!
Unstructured links to random peers. The desired number never falls: a link that comes up while the
node is exactly at its target raises the target by one, and sometimes by one more. While the node has
few unstructured links, its random walks start behind a leaf link.
-/

set_option autoImplicit false
set_option relaxedAutoImplicit false

namespace RingOverlay

structure UnstructuredOverlord where
  active : Bool
  desired : Nat
  current : Nat
  connecting : Bool
  attemptBase : Nat
  deriving DecidableEq, Repr

namespace UnstructuredOverlord

def fresh (cfg : UnstructuredConfig) : UnstructuredOverlord := ⟨false, cfg.initialDesired, 0, false, 0⟩

def needs (o : UnstructuredOverlord) : Bool := o.current < o.desired

/-- Where the random walk starts that looks for a peer: behind a random leaf link while there are few
unstructured ones. -/
def walkTarget (cfg : UnstructuredConfig) (current : Nat) (leafs : RingView) (ws : Words) :
    Option RpcTarget × Words :=
  let ttl := UInt16.ofNat cfg.connectTtl
  if current < cfg.bootstrapThreshold then
    let (leaf, ws) := leafs.random none ws
    (leaf.map fun c => .forwarded c.edge .randomWalk ttl, ws)
  else (some (.routed .randomWalk ttl), ws)

/-- Seeks a link if one is wanted: the target of the handshake to be started. -/
def activate (o : UnstructuredOverlord) (cfg : UnstructuredConfig) (leafs : RingView) (ws : Words) :
    Option RpcTarget × UnstructuredOverlord × Words :=
  if o.active && !o.connecting && o.needs then
    match walkTarget cfg o.current leafs ws with
    | (some target, ws) => (some target, { o with connecting := true, attemptBase := o.current }, ws)
    | (none, ws) => (none, { o with attemptBase := o.current }, ws)
  else (none, o, ws)

def grow (desired : Nat) (cfg : UnstructuredConfig) (ws : Words) : Nat × Words :=
  let (n, ws) := ws.fraction53
  (if cfg.extraGrowthProbability.exceeds n then desired + 2 else desired + 1, ws)

def linkUp (o : UnstructuredOverlord) (cfg : UnstructuredConfig) (count : Nat) (ws : Words) :
    UnstructuredOverlord × Words :=
  if o.current < count && o.current == o.desired then
    let (desired, ws) := grow o.desired cfg ws
    ({ o with desired, current := count }, ws)
  else ({ o with current := count }, ws)

def recount (o : UnstructuredOverlord) (count : Nat) : UnstructuredOverlord := { o with current := count }

/-- The handshake under way has ended; tells whether links were gained meanwhile. -/
def finish (o : UnstructuredOverlord) : Bool × UnstructuredOverlord :=
  (o.attemptBase < o.current, { o with connecting := false })

end UnstructuredOverlord

end RingOverlay
