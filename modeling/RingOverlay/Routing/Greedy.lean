import RingOverlay.Routing.Basic
/-!
Routing to a position on the ring. A packet moves to the structured neighbour closest to its
destination, and only while that neighbour is strictly closer than this node. A leaf link to the
destination itself comes first.
-/

set_option autoImplicit false
set_option relaxedAutoImplicit false

namespace RingOverlay.Routing

def closerOf (dest : RingAddress) (best c : Connection) : Connection :=
  if dest.separation c.address < dest.separation best.address then c else best

def closest? (dest : RingAddress) : List Connection → Option Connection
  | [] => none
  | c :: cs => some (cs.foldl (closerOf dest) c)

/-- The last part of the decision: on to the closest structured neighbour, or no further. -/
def routeStructured (site : RouteSite) (incoming : Option EdgeId) (p : Packet) (dest : RingAddress) :
    RouteOutcome :=
  match closest? dest ((site.table.view .structured).avoiding incoming) with
  | some c =>
    if dest.isCloser c.address site.here then site.forwardOr c.edge p.oneHopFurther (.stuck p)
    else ⟨[], 0, p.delivery != .exact⟩
  | none => ⟨[], 0, p.delivery != .exact⟩

def routeRing (site : RouteSite) (incoming : Option EdgeId) (p : Packet) (dest : RingAddress) :
    RouteOutcome :=
  if p.ttl < p.hops then .dropped
  else if dest = site.here then .delivered
  else if !p.hasTtlLeft then .stuck p
  else
    let further := routeStructured site incoming p dest
    match site.table.get? .leaf dest with
    | some leaf =>
      if some leaf.edge = incoming then further
      else site.forwardOr leaf.edge p.oneHopFurther further
    | none => further

end RingOverlay.Routing
