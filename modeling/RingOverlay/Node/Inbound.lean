import RingOverlay.Node.Overlords
/-!
Calls to a node. A connect request is answered with a description of the node and of the structured
peers nearest to the requester, and the node links back. A discovery call is answered with the node's
description.
-/

set_option autoImplicit false
set_option relaxedAutoImplicit false

namespace RingOverlay.Node

/-- The structured peers that a reply names to a requester, the nearest first. One more than wanted
is looked up, in 64-bit arithmetic, since the requester itself may be among them. -/
def neighborsFor (n : Node) (requester : RingAddress) : List NodeInfo :=
  let wanted := n.config.handshake.nearestNeighbors
  let near := n.table.nearest requester ((wanted + 1) % UInt64.size)
  ((near.filter (·.address != requester)).take wanted).map fun c => .bare c.address

def answerRequest (n : Node) (r : ConnectRequest) : Except RpcError ConnectRequest × Node :=
  if r.target.address = n.here then (.error (.rejected LinkError.connectToSelf.message), n)
  else match n.linkTo r with
    | (.rejected e, n) => (.error (.rejected e.message), n)
    | (_, n) =>
      let reply := ConnectRequest.ofTarget r.connectionType n.info
      (.ok ((reply.withNeighbors (n.neighborsFor r.target.address)).withToken r.token), n)

def answerConnect (n : Node) (args : Value) : Except RpcError Value × Node :=
  match ConnectRequest.ofValue args with
  | .error e => (.error (.badArguments (ConnectRequest.malformedMessage e)), n)
  | .ok r =>
    let (reply, n) := n.answerRequest r
    (reply.map ConnectRequest.toValue, n)

def dispatch (n : Node) (method : String) (args : Value) : Except RpcError Value × Node :=
  match n.methods.handlerFor method with
  | .error e => (.error e, n)
  | .ok .connect => n.answerConnect args
  | .ok .describe => (.ok n.description.toValue, n)

end RingOverlay.Node
