import RingOverlay.Node.Steps
/-!
A node whose loop starts and ends and whose policies are also addressed one by one. What happens, and
what a policy is told, comes in any order.
-/

set_option autoImplicit false
set_option relaxedAutoImplicit false

namespace RingOverlay

/-- Something that happens to a node, or that one of its policies is told. -/
inductive NodeMove where
  | step (s : NodeStep)
  | run
  | shutdown
  | activate (k : OverlordKind)
  | switch (active : Bool) (k : OverlordKind)
  | beat (k : OverlordKind)
  | resync (k : OverlordKind)
  | linkUp (c : Connection) (k : OverlordKind)
  | linkDown (c : Connection) (k : OverlordKind)

namespace Node

def move (n : Node) : NodeMove → Node
  | .step s => n.step s
  | .run => n.run
  | .shutdown => n.shutdown.2
  | .activate k => n.activate k
  | .switch active k => n.setActive active k
  | .beat k => n.beat k
  | .resync k => n.resyncOne k
  | .linkUp c k => n.linkUp c k
  | .linkDown c k => n.linkDown c k

def moved (n : Node) (ms : List NodeMove) : Node := ms.foldl move n

end Node

end RingOverlay
