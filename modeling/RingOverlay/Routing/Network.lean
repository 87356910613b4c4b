import RingOverlay.Routing.Router
/-!
Packets on their way through a network. Copies are in flight towards nodes; a node handles a copy by
routing it with the links it has at that moment, and each copy that an edge takes flies on to the
other end of the edge. Copies are handled in any order and may get lost.
-/

set_option autoImplicit false
set_option relaxedAutoImplicit false

namespace RingOverlay

structure Flight (ν : Type) where
  node : ν
  incoming : Option EdgeId
  packet : Packet

/-- A network at a moment: what every node knows, and what lies at the other end of its edges: a
node, with the identity of the edge there. -/
structure Moment (ν : Type) where
  site : ν → RouteSite
  far : ν → EdgeId → Option (ν × EdgeId)

structure Handling (ν : Type) where
  flight : Flight ν
  site : RouteSite
  outcome : RouteOutcome
  passed : List (Flight ν)

structure Transit (ν : Type) where
  flying : List (Flight ν)
  log : List (Handling ν)

/-- What can happen to the copy in flight at an index. -/
inductive TransitStep (ν : Type) where
  /-- Its node routes it, with the knowledge of a moment and a supply of random words. -/
  | handle (index : Nat) (moment : Moment ν) (words : Words)
  | lose (index : Nat)

namespace Moment

variable {ν : Type}

def pass (m : Moment ν) (n : ν) (c : PacketCopy) : Option (Flight ν) :=
  (m.far n c.edge).map fun (other, edge) => ⟨other, some edge, c.packet⟩

def handle (m : Moment ν) (f : Flight ν) (ws : Words) : Handling ν :=
  let outcome := ((m.site f.node).route f.incoming f.packet ws).1
  ⟨f, m.site f.node, outcome, outcome.copies.filterMap (m.pass f.node)⟩

end Moment

namespace Transit

variable {ν : Type}

def start (f : Flight ν) : Transit ν := ⟨[f], []⟩

def step (t : Transit ν) : TransitStep ν → Transit ν
  | .handle index m ws =>
    match t.flying[index]? with
    | some f => ⟨t.flying.eraseIdx index ++ (m.handle f ws).passed, t.log ++ [m.handle f ws]⟩
    | none => t
  | .lose index => { t with flying := t.flying.eraseIdx index }

def run (t : Transit ν) (steps : List (TransitStep ν)) : Transit ν := steps.foldl step t

def handlers (t : Transit ν) : List ν := t.log.map (·.flight.node)

def takers (t : Transit ν) : List ν := (t.log.filter (·.outcome.deliver)).map (·.flight.node)

def forwards (t : Transit ν) : Nat := (t.log.flatMap (·.outcome.copies)).length

end Transit

end RingOverlay
