import RingOverlay.Message.ConnectRequest
import RingOverlay.Rpc.Basic
/-!
Outbound connect handshakes: how far one has come, why one fails, and the report that its owner gets
at the end.
-/

set_option autoImplicit false
set_option relaxedAutoImplicit false

namespace RingOverlay

inductive HandshakePhase where
  | created
  | awaitingReply
  | succeeded
  | failed
  | aborted
  deriving DecidableEq, Repr

def HandshakePhase.isOver : HandshakePhase → Bool
  | .created | .awaitingReply => false
  | .succeeded | .failed | .aborted => true

inductive HandshakeError where
  | timeout
  | noHandler
  | handlerFailure (message : String)
  | noReply
  deriving DecidableEq, Repr

namespace HandshakeError

def message : HandshakeError → String
  | .timeout => "handshake timed out"
  | .noHandler => "peer has no connect handler"
  | .handlerFailure m => s!"peer handler failed: {m}"
  | .noReply => "reply stream closed without a usable reply"

def ofClose : CloseReason → HandshakeError
  | .complete => .noReply
  | .noHandler => .noHandler
  | .handlerFailure m => .handlerFailure m
  | .timeout => .timeout

end HandshakeError

structure HandshakeReport where
  target : RpcTarget
  request : ConnectRequest
  phase : HandshakePhase
  error : Option HandshakeError
  responses : List ConnectRequest
  deriving DecidableEq, Repr

def HandshakeReport.succeeded (r : HandshakeReport) : Bool := r.phase == .succeeded

end RingOverlay
