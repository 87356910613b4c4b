import RingOverlay.Routing.Basic
/-!
Routing along the ring: the packet goes to the nearest structured neighbour on one side. The edge it
came in on is passed over once.
-/

set_option autoImplicit false
set_option relaxedAutoImplicit false

namespace RingOverlay

def RingView.towards (v : RingView) : Bearing → RingAddress → Option Connection
  | .left, a => v.leftOf a
  | .right, a => v.rightOf a

namespace Routing

def nextTowards (v : RingView) (here : RingAddress) (incoming : Option EdgeId) (d : Bearing) :
    Option Connection :=
  match v.towards d here with
  | some c => if some c.edge = incoming then v.towards d c.address else some c
  | none => none

def routeDirectional (site : RouteSite) (incoming : Option EdgeId) (p : Packet) (d : Bearing) :
    RouteOutcome :=
  match nextTowards (site.table.view .structured) site.here incoming d with
  | some c =>
    if p.hasTtlLeft && some c.edge != incoming then site.forwardOr c.edge p.oneHopFurther (.stuck p)
    else .stuck p
  | none => .stuck p

end Routing

end RingOverlay
