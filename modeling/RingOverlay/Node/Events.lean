import RingOverlay.Node.Polling
import RingOverlay.Routing.Router
/-!
What comes to a node from its surroundings: links that come up or are lost, replies, the ends of
attempts, packets, and the wish to run or to stop.
-/

set_option autoImplicit false
set_option relaxedAutoImplicit false

namespace RingOverlay.Node

/-- A node with all its policies; the one for discovery takes part if there is a channel for it and
discovery is enabled. Configured pins that are no positions are passed over. -/
def create (here : RingAddress) (config : OverlayConfig) (table : ConnectionTable) (channel : Bool) : Node :=
  let n := bare here config table
  let n := { n with
    overlords := [.leaf, .unstructured, .managed]
      ++ (if channel && config.discovery.enabled then [.discovery] else [])
    methods := (n.methods.register connectMethod .connect).register discoveryMethod .describe }
  config.managed.pinned.foldl (fun n s =>
    match RingAddress.ofText s with
    | .ok a => n.pin a
    | .error _ => n) n

def hand (e : TableEvent) (n : Node) (t : TaskId × Task) : Node :=
  match t.2 with
  | .drive l => if l.started then n.resume t.1 (.drive { l with feed := l.feed.push e }) else n
  | _ => n

/-- Hands a table event to every loop that has started to read events. -/
def publish (n : Node) (e : TableEvent) : Node := n.tasks.foldl (hand e) n

def addLink (n : Node) (c : Connection) : Except TableError Node :=
  match n.table.add c with
  | .ok table => .ok ({ n with table }.publish (.connected c))
  | .error e => .error e

def removeLinks (n : Node) (e : EdgeId) : List Connection × Node :=
  let (gone, table) := n.table.detach e
  (gone, gone.foldl (fun n c => n.publish (.disconnected c)) { n with table })

def route (n : Node) (incoming : Option EdgeId) (p : Packet) : RouteOutcome × Node :=
  let (o, words) := RouteSite.route ⟨n.here, n.table, n.edges.accepts⟩ incoming p n.words
  (o, { n with words })

def connect (n : Node) (policy : ReplyPolicy) (target : RpcTarget) (request : ConnectRequest)
    (abort : Bool) (timeoutMs : Nat) : Node :=
  n.spawn (.handshake ⟨.begin target request, .outside policy, .decided abort, timeoutMs⟩)

/-- Puts an event on the reply stream of a handshake; tells whether it still listens. -/
def deliver (n : Node) (id : TaskId) (e : RpcEvent) : Bool × Node :=
  match n.task? id with
  | some (.handshake h) =>
    if h.hungUp then (false, n)
    else (true, n.resume id (.handshake { h with toHandshake := h.receive e }))
  | _ => (false, n)

def hangUp (n : Node) (id : TaskId) : Node :=
  match n.task? id with
  | some (.handshake h) => n.resume id (.handshake { h with toHandshake := h.hangUp })
  | _ => n

/-- Ends a link attempt; tells whether it was open. How it ended is of no consequence: the table tells
whether there is a link. -/
def finishLink (n : Node) (id : TaskId) : Bool × Node :=
  match n.task? id with
  | some (.link role false) => (true, n.resume id (.link role true))
  | _ => (false, n)

/-- Puts a reply on the channel of a discovery query; tells whether it was taken. -/
def deliverFound (n : Node) (id : TaskId) (r : DiscoveryReply) : Bool × Node :=
  match n.task? id with
  | some (.query q) =>
    if !q.ended && q.inbox.length < DiscoveryOverlord.capacity then
      (true, n.resume id (.query { q with inbox := q.inbox ++ [r] }))
    else (false, n)
  | _ => (false, n)

/-- Ends the replies to a discovery query; tells whether they had not ended. -/
def endFound (n : Node) (id : TaskId) : Bool × Node :=
  match n.task? id with
  | some (.query q) => (!q.ended, if q.ended then n else n.resume id (.query { q with ended := true }))
  | _ => (false, n)

def run (n : Node) : Node := n.spawn (.drive ⟨false, .fresh, 0, false⟩)

def isLoop : Task → Bool
  | .drive _ => true
  | _ => false

def isRunning (n : Node) : Bool := n.tasks.any fun (_, t) => isLoop t

def shutdown (n : Node) : Bool × Node :=
  (n.isRunning, n.tasks.foldl (fun n (id, t) =>
    match t with
    | .drive l => n.resume id (.drive { l with stopping := true })
    | _ => n) n)

end RingOverlay.Node
