import RingOverlay.Connection.Edges
import RingOverlay.Node.Task
import RingOverlay.Overlord.Discovery
import RingOverlay.Overlord.Leaf
import RingOverlay.Overlord.Managed
import RingOverlay.Overlord.Unstructured
import RingOverlay.Rpc.Registry
/-!
A node: its position, configuration, links and endpoints, its policies, and the work it has under
way. What it asks of its surroundings is written to a list of actions.
-/

set_option autoImplicit false
set_option relaxedAutoImplicit false

namespace RingOverlay

inductive OverlordKind where
  | leaf
  | unstructured
  | managed
  | discovery
  deriving DecidableEq, Repr

inductive NodeMethod where
  | connect
  | describe
  deriving DecidableEq, Repr

structure Node where
  here : RingAddress
  config : OverlayConfig
  table : ConnectionTable
  edges : EdgeModes
  localTransports : List Transport
  remoteTransports : List Transport
  attempts : LinkAttempts
  /-- The policies that take part, in the order in which they are told of changes. -/
  overlords : List OverlordKind
  leaf : LeafOverlord
  unstructured : UnstructuredOverlord
  managed : ManagedOverlord
  discovery : DiscoveryOverlord
  methods : RpcRegistry NodeMethod
  words : Words
  now : Nat
  tasks : List (TaskId × Task)
  /-- The number of tasks created so far. -/
  created : Nat
  /-- The tasks to be polled, in order. -/
  ready : List TaskId
  timers : List (Nat × TaskId)
  actions : List NodeAction

namespace Node

def bare (here : RingAddress) (config : OverlayConfig) (table : ConnectionTable) : Node where
  here
  config
  table
  edges := []
  localTransports := config.network.localTransports.map Transport.mk
  remoteTransports := mergeTransports [] (config.network.remoteTransports.map Transport.mk)
  attempts := .empty
  overlords := []
  leaf := .fresh config.leaf
  unstructured := .fresh config.unstructured
  managed := .fresh 0
  discovery := .fresh
  methods := .empty
  words := []
  now := 0
  tasks := []
  created := 0
  ready := []
  timers := []
  actions := []

def realm (n : Node) : String := n.config.node.realm

/-- How a node describes itself in handshakes: with the first of its own endpoints. -/
def info (n : Node) : NodeInfo := ⟨n.here, n.localTransports.take n.config.handshake.maxTransports⟩

/-- How a node describes itself to nearby nodes: with all its own endpoints. -/
def description (n : Node) : DiscoveryReply := ⟨n.here, n.realm, n.localTransports⟩

def connectRequest (n : Node) (type : String) : ConnectRequest := .ofTarget type n.info

def listenOn (n : Node) (ts : List Transport) : Node := { n with localTransports := ts }

def addRemote (n : Node) (ts : List Transport) : Node :=
  { n with remoteTransports := mergeTransports n.remoteTransports ts }

/-- Adds endpoints of other nodes; tells how many were new. -/
def admitRemote (n : Node) (ts : List Transport) : Nat × Node :=
  let m := n.addRemote ts
  (m.remoteTransports.length - n.remoteTransports.length, m)

def act (n : Node) (a : NodeAction) : Node := { n with actions := n.actions ++ [a] }

def task? (n : Node) (id : TaskId) : Option Task := n.tasks.lookup id

def wake (n : Node) (id : TaskId) : Node :=
  if id ∈ n.ready then n else { n with ready := n.ready ++ [id] }

def spawn (n : Node) (t : Task) : Node :=
  { n with
    tasks := n.tasks ++ [(n.created, t)]
    created := n.created + 1
    ready := n.ready ++ [n.created] }

def spawnResting (n : Node) (t : Task) : Node :=
  { n with tasks := n.tasks ++ [(n.created, t)], created := n.created + 1 }

def setTask (n : Node) (id : TaskId) (t : Task) : Node :=
  { n with tasks := n.tasks.map fun (i, u) => if i = id then (i, t) else (i, u) }

def resume (n : Node) (id : TaskId) (t : Task) : Node := (n.setTask id t).wake id

def endTask (n : Node) (id : TaskId) : Node :=
  { n with tasks := n.tasks.filter (·.1 != id), timers := n.timers.filter (·.2 != id) }

def wakeAt (n : Node) (time : Nat) (id : TaskId) : Node := { n with timers := n.timers ++ [(time, id)] }

def isConnected (n : Node) (a : RingAddress) : Bool := n.table.contains .structured a

def isBusy (n : Node) (a : RingAddress) : Bool := n.isConnected a || n.attempts.isActive ⟨a, .structured⟩

end Node

end RingOverlay
