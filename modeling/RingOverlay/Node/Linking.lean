import RingOverlay.Node.Basic
/-!
How a node sets up links, and starts handshakes.
-/

set_option autoImplicit false
set_option relaxedAutoImplicit false

namespace RingOverlay.Node

def launch (n : Node) (role : LinkRole) (r : LinkRequest) : Node :=
  (n.act (.link n.created r)).spawnResting (.link role false)

def launchWork (n : Node) (w : LinkWork) : Node :=
  n.launch (match w.key with
    | some k => .keyed k
    | none => .untargeted) w.request

def submit (n : Node) (r : LinkRequest) : LinkOutcome × Node :=
  let (outcome, attempts, work) := n.attempts.submit n.here n.table r
  let n := { n with attempts }
  (outcome, match work with
    | some w => n.launchWork w
    | none => n)

def linkTo (n : Node) (m : ConnectRequest) : LinkOutcome × Node := n.submit (.ofMessage m)

def workerFinished (n : Node) (k : AttemptKey) : Node :=
  let (attempts, work) := n.attempts.finish n.table k
  let n := { n with attempts }
  match work with
  | some w => n.launchWork w
  | none => n

def startHandshake (n : Node) (owner : HandshakeOwner) (target : RpcTarget) (type : String)
    (abort : AbortRule) : Node :=
  n.spawn (.handshake
    ⟨.begin target (n.connectRequest type), owner, abort, n.config.timing.replyTimeoutMs⟩)

def connectPinned (n : Node) (a : RingAddress) : Node :=
  n.startHandshake .managed (.exact a) managedType (.structuredTo a)

def connectAll (n : Node) (as : List RingAddress) : Node := as.foldl connectPinned n

end RingOverlay.Node
