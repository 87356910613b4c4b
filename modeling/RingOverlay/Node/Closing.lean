import RingOverlay.Node.Steps
/-!
A node with a closer that acts at once: the edges that the node asks to be closed are removed from its
table before anything else happens.
-/

set_option autoImplicit false
set_option relaxedAutoImplicit false

namespace RingOverlay

def NodeAction.closed? : NodeAction → Option EdgeId
  | .close e _ => some e
  | _ => none

namespace Node

def closedSince (n : Node) (actions : Nat) : List EdgeId :=
  (n.actions.drop actions).filterMap (·.closed?)

def stepClosing (n : Node) (s : NodeStep) : Node :=
  (n.step s).after (((n.step s).closedSince n.actions.length).map .removeEdge)

/-- A node after several steps, with a closer that acts at once. -/
def afterClosing (n : Node) (steps : List NodeStep) : Node := steps.foldl stepClosing n

end Node

end RingOverlay
