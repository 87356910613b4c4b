import RingOverlay.Node.Events
import RingOverlay.Node.Inbound
import RingOverlay.Node.Settling
/-!
A node as a system: everything that can happen to it while its loop runs, each as one step, in any
order. A task is polled as a whole; a loop may also read its feed item by item.
-/

set_option autoImplicit false
set_option relaxedAutoImplicit false

namespace RingOverlay

inductive NodeStep where
  | add (c : Connection)
  | removeEdge (e : EdgeId)
  | read (task : TaskId)
  | heartbeat
  | pin (a : RingAddress)
  | unpin (a : RingAddress)
  /-- A task goes on: a handshake, a link attempt, a retry, a query, or a loop with all that is due. -/
  | poll (task : TaskId)
  | expire (task : TaskId)
  | deliver (task : TaskId) (e : RpcEvent)
  | hangUp (task : TaskId)
  | finishLink (task : TaskId)
  | deliverFound (task : TaskId) (r : DiscoveryReply)
  | endFound (task : TaskId)
  | connect (policy : ReplyPolicy) (target : RpcTarget) (request : ConnectRequest) (abort : Bool)
      (timeoutMs : Nat)
  | submit (r : LinkRequest)
  | dispatch (method : String) (args : Value)
  | route (incoming : Option EdgeId) (p : Packet)
  | advance (ms : Nat)

namespace Node

/-- Lets a loop read one item of its feed. Where events were lost, the rest is skipped as well and the
policies look up their links instead. -/
def readNext (n : Node) (id : TaskId) : Node :=
  match n.task? id with
  | some (.drive l) =>
    match l.feed.next? with
    | some (.event e, feed) => (n.setTask id (.drive { l with feed })).handleEvent e
    | some (.lagged _, _) => (n.setTask id (.drive { l with feed := .fresh })).resync
    | none => n
  | _ => n

def step (n : Node) : NodeStep → Node
  | .add c =>
    match n.addLink c with
    | .ok n => n
    | .error _ => n
  | .removeEdge e => (n.removeLinks e).2
  | .read id => n.readNext id
  | .heartbeat => n.heartbeat
  | .pin a => n.pin a
  | .unpin a => (n.unpin a).2
  | .poll id => n.poll id
  | .expire id => n.expire id
  | .deliver id e => (n.deliver id e).2
  | .hangUp id => n.hangUp id
  | .finishLink id => (n.finishLink id).2
  | .deliverFound id r => (n.deliverFound id r).2
  | .endFound id => (n.endFound id).2
  | .connect policy target request abort timeoutMs => n.connect policy target request abort timeoutMs
  | .submit r => (n.submit r).2
  | .dispatch method args => (n.dispatch method args).2
  | .route incoming p => (n.route incoming p).2
  | .advance ms => n.advance ms

def after (n : Node) (steps : List NodeStep) : Node := steps.foldl step n

end Node

end RingOverlay
