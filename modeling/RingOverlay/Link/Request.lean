import RingOverlay.Connection.Basic
import RingOverlay.Message.ConnectRequest
/-!
Attempts to set up a link, and why one may end without a connection.
-/

set_option autoImplicit false
set_option relaxedAutoImplicit false

namespace RingOverlay

structure LinkRequest where
  /-- The position expected of the peer; without one, whoever answers is taken. -/
  target : Option RingAddress
  transports : List Transport
  connectionType : String
  token : String
  deriving DecidableEq, Repr

namespace LinkRequest

/-- The attempt to link with the node that a handshake message describes. -/
def ofMessage (m : ConnectRequest) : LinkRequest where
  target := some m.target.address
  transports := m.target.transports
  connectionType := m.connectionType
  token := m.token

def mainType (r : LinkRequest) : MainType := .ofTypeString r.connectionType

end LinkRequest

/-- Why a link attempt ended without a connection. -/
inductive LinkError where
  | alreadyConnected
  | targetMismatch
  | disconnecting
  | inProgress
  | connectToSelf
  | edgeClosed
  | noTransports
  | timeout
  deriving DecidableEq, Repr

def LinkError.message : LinkError → String
  | .alreadyConnected => "already connected"
  | .targetMismatch => "peer address does not match the expected target"
  | .disconnecting => "peer is disconnecting"
  | .inProgress => "another link attempt is in progress"
  | .connectToSelf => "refusing to connect to self"
  | .edgeClosed => "edge closed during link"
  | .noTransports => "no transport address to try"
  | .timeout => "link timed out"

end RingOverlay
