import RingOverlay.Node.Moves
/-!
A node whose own endpoints change while it works: what happens to it and the endpoints that it is given
to listen on, each as one step, in any order.
-/

set_option autoImplicit false
set_option relaxedAutoImplicit false

namespace RingOverlay

/-- Something that happens to a node, or a change of its own endpoints. -/
inductive EndpointStep where
  | move (m : NodeMove)
  | listenOn (ts : List Transport)

def EndpointStep.endpoints? : EndpointStep → Option (List Transport)
  | .move _ => none
  | .listenOn ts => some ts

namespace Node

def endpointStep (n : Node) : EndpointStep → Node
  | .move m => n.move m
  | .listenOn ts => n.listenOn ts

def endpointSteps (n : Node) (steps : List EndpointStep) : Node := steps.foldl endpointStep n

end Node

end RingOverlay
