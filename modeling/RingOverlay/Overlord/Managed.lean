import RingOverlay.Address.Text
import RingOverlay.Config.Basic
/-!
Pinned peers, with which a node stays connected by structured links. A pinned peer is on while there
is a link to it. Otherwise it goes from off through two attempts back to off, one step for each
handshake that ended without a link; after either attempt the node waits and tries again. A peer that
is off is taken up again by the periodic check, or when a link to it is lost.
-/

set_option autoImplicit false
set_option relaxedAutoImplicit false

namespace RingOverlay

def managedType : String := "structured.managed"

inductive PinState where
  | off
  | attempt1
  | attempt2
  | on
  deriving DecidableEq, Repr

namespace PinState

def afterFailure : PinState → PinState
  | .off => .attempt1
  | .attempt1 => .attempt2
  | .attempt2 | .on => .off

def isAttempt : PinState → Bool
  | .attempt1 | .attempt2 => true
  | .off | .on => false

def ofConnected (connected : Bool) : PinState := if connected then .on else .off

def reconcile (connected : Bool) (s : PinState) : PinState :=
  if connected then .on else if s = .on then .off else s

end PinState

structure ManagedOverlord where
  active : Bool
  pins : List (RingAddress × PinState)
  lastCheck : Nat
  deriving DecidableEq, Repr

namespace ManagedOverlord

def fresh (now : Nat) : ManagedOverlord := ⟨false, [], now⟩

def state? (o : ManagedOverlord) (a : RingAddress) : Option PinState := o.pins.lookup a

def isPinned (o : ManagedOverlord) (a : RingAddress) : Bool := (o.state? a).isSome

def needs (o : ManagedOverlord) : Bool := o.pins.any (·.2 != .on)

def mapStates (o : ManagedOverlord) (f : RingAddress → PinState → PinState) : ManagedOverlord :=
  { o with pins := o.pins.map fun (a, s) => (a, f a s) }

def setState (o : ManagedOverlord) (a : RingAddress) (s : PinState) : ManagedOverlord :=
  o.mapStates fun b t => if b = a then s else t

def insertPin (a : RingAddress) (s : PinState) (pins : List (RingAddress × PinState)) :
    List (RingAddress × PinState) :=
  pins.takeWhile (·.1.lt a) ++ (a, s) :: pins.dropWhile (·.1.lt a)

/-- Pins a peer other than the node itself; tells whether a handshake is to be started. -/
def pin (o : ManagedOverlord) (here a : RingAddress) (connected : Bool) : Bool × ManagedOverlord :=
  if a = here || o.isPinned a then (false, o)
  else
    (o.active && !connected, { o with pins := insertPin a (.ofConnected connected) o.pins })

/-- Unpins a peer; tells whether it was pinned. -/
def unpin (o : ManagedOverlord) (a : RingAddress) : Bool × ManagedOverlord :=
  (o.isPinned a, { o with pins := o.pins.filter (·.1 != a) })

/-- The pinned peers to which a handshake is to be started: those that are not on and not busy. -/
def idle (o : ManagedOverlord) (busy : RingAddress → Bool) : List RingAddress :=
  (o.pins.filter fun (a, s) => s != .on && !busy a).map (·.1)

def linkUp (o : ManagedOverlord) (a : RingAddress) : ManagedOverlord := o.setState a .on

/-- A structured link to a peer was lost; tells whether a handshake is to be started. -/
def linkDown (o : ManagedOverlord) (a : RingAddress) : Bool × ManagedOverlord :=
  (o.active && o.isPinned a, o.setState a .off)

def resync (o : ManagedOverlord) (connected : RingAddress → Bool) : ManagedOverlord :=
  o.mapStates fun a s => s.reconcile (connected a)

def beginCheck? (o : ManagedOverlord) (cfg : ManagedConfig) (now : Nat) : Option ManagedOverlord :=
  if o.active && cfg.checkIntervalMs ≤ now - o.lastCheck then some { o with lastCheck := now } else none

/-- A handshake with a peer has ended; tells whether another one is to follow after the pause. -/
def finish (o : ManagedOverlord) (a : RingAddress) (connected : Bool) : Bool × ManagedOverlord :=
  match o.state? a with
  | none => (false, o)
  | some s =>
    let next := if connected then .on else s.afterFailure
    (!connected && next.isAttempt, o.setState a next)

def wantsRetry (o : ManagedOverlord) (a : RingAddress) : Bool :=
  o.active && (match o.state? a with
    | some s => s.isAttempt
    | none => false)

end ManagedOverlord

end RingOverlay
