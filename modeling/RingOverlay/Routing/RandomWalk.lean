import RingOverlay.Routing.Basic
/-!
Random walks: one random unstructured hop at a time, until the hops are used up or no further hop is
possible.
-/

set_option autoImplicit false
set_option relaxedAutoImplicit false

namespace RingOverlay.Routing

def routeRandomWalk (site : RouteSite) (incoming : Option EdgeId) (p : Packet) (ws : Words) :
    RouteOutcome × Words :=
  let v := site.table.view .unstructured
  if p.ttl < p.hops then (.dropped, ws)
  else if p.hops = p.ttl || v.size ≤ 1 then (.delivered, ws)
  else
    match v.random incoming ws with
    | (some c, ws) => (site.forwardOr c.edge p.oneHopFurther .delivered, ws)
    | (none, ws) => (.delivered, ws)

end RingOverlay.Routing
