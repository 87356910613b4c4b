import RingOverlay.Connection.Basic
import RingOverlay.Data.Value
/-!
Calls to peers: where a call goes, what comes back on its reply stream, and how handlers fail.
-/

set_option autoImplicit false
set_option relaxedAutoImplicit false

namespace RingOverlay

inductive RpcTarget where
  | edge (e : EdgeId)
  | exact (a : RingAddress)
  | routed (destination : Address) (ttl : UInt16)
  | forwarded (forwarder : EdgeId) (destination : Address) (ttl : UInt16)
  deriving DecidableEq, Repr

def RpcTarget.exactAddress : RpcTarget → Option RingAddress
  | .exact a => some a
  | .routed (.ring a) _ => some a
  | _ => none

inductive CloseReason where
  | complete
  | noHandler
  | handlerFailure (message : String)
  | timeout
  deriving DecidableEq, Repr

def CloseReason.message : CloseReason → String
  | .complete => "complete"
  | .noHandler => "no handler"
  | .handlerFailure m => s!"handler failure: {m}"
  | .timeout => "timeout"

inductive RpcEvent where
  | result (v : Value)
  | closed (reason : CloseReason)

structure RpcCaller where
  source : Option RingAddress
  edge : Option EdgeId
  deriving DecidableEq, Repr

inductive RpcError where
  | noHandler (method : String)
  | badArguments (reason : String)
  | rejected (reason : String)
  deriving DecidableEq, Repr

namespace RpcError

def message : RpcError → String
  | .noHandler m => s!"no handler for {m}"
  | .badArguments r => s!"bad arguments: {r}"
  | .rejected r => s!"rejected: {r}"

def closeReason : RpcError → CloseReason
  | .noHandler _ => .noHandler
  | e => .handlerFailure e.message

end RpcError

end RingOverlay
