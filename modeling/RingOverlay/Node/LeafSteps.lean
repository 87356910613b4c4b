import RingOverlay.Node.Events
/-!
The leaf policy of a node as a system: what it is asked and told, the ends of its attempts, and
changes of what it looks at, each as one step, in any order.
-/

set_option autoImplicit false
set_option relaxedAutoImplicit false

namespace RingOverlay

/-- Something that the leaf policy is asked or told, or that changes around it. -/
inductive LeafStep where
  | activate
  | beat
  | switch (active : Bool)
  | linkUp (c : Connection)
  | linkDown (c : Connection)
  | finish (task : TaskId)
  | poll (task : TaskId)
  | links (table : ConnectionTable)
  | endpoints (ts : List Transport)
  | words (ws : Words)
  | advance (ms : Nat)

def LeafStep.isLeafUp : LeafStep → Bool
  | .linkUp c => decide (c.mainType = .leaf)
  | _ => false

namespace Node

def leafStep (n : Node) : LeafStep → Node
  | .activate => n.activate .leaf
  | .beat => n.beat .leaf
  | .switch active => n.setActive active .leaf
  | .linkUp c => n.linkUp c .leaf
  | .linkDown c => n.linkDown c .leaf
  | .finish id => (n.finishLink id).2
  | .poll id => n.poll id
  | .links table => { n with table }
  | .endpoints ts => { n with remoteTransports := ts }
  | .words ws => { n with words := ws }
  | .advance ms => { n with now := n.now + ms }

def leafSteps (n : Node) (steps : List LeafStep) : Node := steps.foldl leafStep n

end Node

end RingOverlay
