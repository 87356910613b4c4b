import RingOverlay.Routing.Basic
/-!
Epidemic routing over unstructured links. On the first hop one random neighbour gets the packet as
it is. Every other neighbour but the sender gets a copy with the flood's probability.
-/

set_option autoImplicit false
set_option relaxedAutoImplicit false

namespace RingOverlay.Routing

/-- Offers copies to links, each with the flood's probability, and counts those that are taken; one word
decides for each link. -/
def spread (site : RouteSite) (probability : Single) (p : Packet) :
    List Connection → Words → List PacketCopy × Nat × Words
  | [], ws => ([], 0, ws)
  | c :: cs, ws =>
    let (n, ws) := ws.fraction24
    let (copies, sent, ws) := spread site probability p cs ws
    if probability.exceeds n && site.accepts c.edge then (⟨c.edge, p⟩ :: copies, sent + 1, ws)
    else (copies, sent, ws)

def firstHopCopy (site : RouteSite) (v : RingView) (incoming : Option EdgeId) (p : Packet) (ws : Words) :
    Option EdgeId × List PacketCopy × Nat × Words :=
  match v.random incoming ws with
  | (some c, ws) =>
    if site.accepts c.edge then (some c.edge, [⟨c.edge, p.oneHopFurther⟩], 1, ws)
    else (some c.edge, [], 0, ws)
  | (none, ws) => (none, [], 0, ws)

def routeFlood (site : RouteSite) (incoming : Option EdgeId) (p : Packet) (flood : FloodAddress)
    (ws : Words) : RouteOutcome × Words :=
  let v := site.table.view .unstructured
  if v.size < 2 || !p.hasTtlLeft then (.stuck p, ws)
  else
    let (chosen, first, sentFirst, ws) :=
      if flood.firstHop then firstHopCopy site v incoming p ws else (none, [], 0, ws)
    let next := p.oneHopFurther.withDestination (.flood flood.withoutFirstHop)
    let others := (v.avoiding incoming).filter fun c => some c.edge != chosen
    let (rest, sent, ws) := spread site flood.probability next others ws
    (⟨first ++ rest, sentFirst + sent, true⟩, ws)

end RingOverlay.Routing
