import RingOverlay.Address.Basic
/-!
Routed packets: where a packet comes from and goes to, how far it has come and may go, and what
happens where it cannot get any closer.
-/

set_option autoImplicit false
set_option relaxedAutoImplicit false

namespace RingOverlay

inductive DeliveryMode where
  | exact
  | last
  | nearest
  deriving DecidableEq, Repr

namespace DeliveryMode

def code : DeliveryMode → UInt8
  | .exact => 0
  | .last => 1
  | .nearest => 2

def ofCode? (b : UInt8) : Option DeliveryMode :=
  if b = 0 then some .exact else if b = 1 then some .last else if b = 2 then some .nearest else none

def isLastHop (m : DeliveryMode) : Bool := m == .last

end DeliveryMode

structure Packet where
  hops : UInt16
  ttl : UInt16
  source : RingAddress
  destination : Address
  delivery : DeliveryMode
  payloadType : UInt8
  payload : Bytes
  deriving DecidableEq, Repr

namespace Packet

def oneHopFurther (p : Packet) : Packet :=
  { p with hops := if p.hops = 0xffff then p.hops else p.hops + 1 }

def withDestination (p : Packet) (a : Address) : Packet := { p with destination := a }

def withDelivery (p : Packet) (m : DeliveryMode) : Packet := { p with delivery := m }

def hasTtlLeft (p : Packet) : Bool := p.hops < p.ttl

/-- Equality of packets, with flood probabilities compared as numbers. -/
def same (p q : Packet) : Bool :=
  p.destination.same q.destination && decide ({ p with destination := q.destination } = q)

end Packet

end RingOverlay
