import RingOverlay.Node.Events
/-!
The discovery policy of a node as a system: what it is asked and told, the replies to its queries and
their ends, and changes of what it looks at, each as one step, in any order.
-/

set_option autoImplicit false
set_option relaxedAutoImplicit false

namespace RingOverlay

/-- Something that the discovery policy is asked or told, or that changes around it. -/
inductive DiscoveryStep where
  | activate
  | beat
  | switch (active : Bool)
  | reply (query : TaskId) (r : DiscoveryReply)
  | close (query : TaskId)
  | poll (query : TaskId)
  | links (table : ConnectionTable)
  | advance (ms : Nat)

def DiscoveryStep.isCall : DiscoveryStep → Bool
  | .activate | .beat => true
  | _ => false

namespace Node

def discoveryStep (n : Node) : DiscoveryStep → Node
  | .activate => n.activate .discovery
  | .beat => n.beat .discovery
  | .switch active => n.setActive active .discovery
  | .reply id r => (n.deliverFound id r).2
  | .close id => (n.endFound id).2
  | .poll id => n.poll id
  | .links table => { n with table }
  | .advance ms => { n with now := n.now + ms }

def discoverySteps (n : Node) (steps : List DiscoveryStep) : Node := steps.foldl discoveryStep n

end Node

end RingOverlay
