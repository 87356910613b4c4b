import RingOverlay.Routing.Directional
import RingOverlay.Routing.Flood
import RingOverlay.Routing.Greedy
import RingOverlay.Routing.RandomWalk
/-!
Routing by the class of a packet's destination.
-/

set_option autoImplicit false
set_option relaxedAutoImplicit false

namespace RingOverlay

/-- Routes a packet that came in on an edge, or none if it starts here. -/
def RouteSite.route (site : RouteSite) (incoming : Option EdgeId) (p : Packet) (ws : Words) :
    RouteOutcome × Words :=
  match p.destination with
  | .ring dest => (Routing.routeRing site incoming p dest, ws)
  | .directional d => (Routing.routeDirectional site incoming p d, ws)
  | .flood flood => Routing.routeFlood site incoming p flood ws
  | .randomWalk => Routing.routeRandomWalk site incoming p ws

end RingOverlay
