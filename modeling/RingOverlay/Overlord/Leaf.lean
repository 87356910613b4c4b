import RingOverlay.Config.Basic
import RingOverlay.Link.Request
import RingOverlay.Table.View
/-!
Leaf links, which tie a node to the overlay. A leaf attempt goes to all known endpoints and expects
no particular peer. Attempts keep a pause between them that doubles up to a limit and starts anew as
soon as a leaf link is up. Of too many leaf links a random older one is closed.
-/

set_option autoImplicit false
set_option relaxedAutoImplicit false

namespace RingOverlay

/-- More leaf links than this are too many. There is no such number if it does not fit a 64-bit word. -/
def LeafConfig.quota? (cfg : LeafConfig) : Option Nat :=
  if 2 * cfg.desired < UInt64.size then some (2 * cfg.desired) else none

structure LeafOverlord where
  active : Bool
  linking : Bool
  retryInterval : Nat
  nextAttempt : Option Nat
  deriving DecidableEq, Repr

namespace LeafOverlord

def closeReason : String := "too many leaf connections"

def fresh (cfg : LeafConfig) : LeafOverlord := ⟨false, false, cfg.retryIntervalMs, none⟩

/-- Whether a node with `count` leaf links wants another one. -/
def needs (cfg : LeafConfig) (count : Nat) : Bool := count < cfg.desired

def mayTry (o : LeafOverlord) (now : Nat) : Bool :=
  !o.linking && (match o.nextAttempt with
    | some t => t ≤ now
    | none => true)

def begin (o : LeafOverlord) (cfg : LeafConfig) (now : Nat) : LeafOverlord :=
  { o with
    linking := true
    nextAttempt := some (now + o.retryInterval)
    retryInterval := min (2 * o.retryInterval) cfg.longestIntervalMs }

def finish (o : LeafOverlord) : LeafOverlord := { o with linking := false }

/-- Seeks a link if one is wanted: tells whether an attempt is to be made. Without an endpoint to try,
the pause passes all the same. -/
def activate (o : LeafOverlord) (cfg : LeafConfig) (now count : Nat) (endpoints : List Transport) :
    Bool × LeafOverlord :=
  if o.active && needs cfg count && o.mayTry now then
    if endpoints.isEmpty then (false, (o.begin cfg now).finish) else (true, o.begin cfg now)
  else (false, o)

def resetBackoff (o : LeafOverlord) (cfg : LeafConfig) : LeafOverlord :=
  { o with retryInterval := cfg.retryIntervalMs, nextAttempt := none }

/-- The leaf link to be closed after a new one came up on an edge, if there are too many. This cannot be
told where the quota overflows. -/
def victim (cfg : LeafConfig) (leafs : RingView) (newest : EdgeId) (ws : Words) :
    Option (Option Connection × Words) :=
  cfg.quota?.map fun quota => if leafs.size ≤ quota then (none, ws) else leafs.random (some newest) ws

def request (here : RingAddress) (endpoints : List Transport) : LinkRequest :=
  ⟨none, endpoints, MainType.leaf.name, here.text⟩

end LeafOverlord

end RingOverlay
