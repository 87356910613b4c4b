import RingOverlay.Packet.Basic
import RingOverlay.Table.Basic
/-!
What a node decides about one packet: the copies it sends and whether it takes the packet itself.
Routing never waits and never repeats a copy; a packet with nowhere to go is dropped.
-/

set_option autoImplicit false
set_option relaxedAutoImplicit false

namespace RingOverlay

structure PacketCopy where
  edge : EdgeId
  packet : Packet
  deriving DecidableEq, Repr

/-- What a node did with a packet: the copies that edges took, in order, how many these were counted to
be, and whether the node takes the packet itself. -/
structure RouteOutcome where
  copies : List PacketCopy
  sent : Nat
  deliver : Bool
  deriving DecidableEq, Repr

/-- What a node knows when it decides: its position, its links, and which edges take packets. -/
structure RouteSite where
  here : RingAddress
  table : ConnectionTable
  accepts : EdgeId → Bool

namespace RouteOutcome

def dropped : RouteOutcome := ⟨[], 0, false⟩

def delivered : RouteOutcome := ⟨[], 0, true⟩

/-- Nothing could be sent; the node takes the packet if it is meant for whoever comes last. -/
def stuck (p : Packet) : RouteOutcome := ⟨[], 0, p.delivery.isLastHop⟩

def forwarded (e : EdgeId) (p : Packet) : RouteOutcome := ⟨[⟨e, p⟩], 1, false⟩

end RouteOutcome

/-- Offers a copy to an edge and falls back to another outcome if the edge does not take it. -/
def RouteSite.forwardOr (site : RouteSite) (e : EdgeId) (p : Packet) (otherwise : RouteOutcome) :
    RouteOutcome :=
  if site.accepts e then .forwarded e p else otherwise

end RingOverlay
