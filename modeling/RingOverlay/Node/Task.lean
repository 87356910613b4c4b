import RingOverlay.Handshake.Turn
import RingOverlay.Link.Attempts
import RingOverlay.Message.Discovery
import RingOverlay.Table.Feed
/-!
The work that a node has under way, as data: handshakes, link attempts, delayed retries, discovery
queries and the loop that drives the node. A task rests until something comes in for it, and is then
polled once.
-/

set_option autoImplicit false
set_option relaxedAutoImplicit false

namespace RingOverlay

abbrev TaskId := Nat

/-- What an owner from outside the node does with a usable reply. -/
inductive ReplyPolicy where
  | collect
  | first
  | link
  deriving DecidableEq, Repr

/-- Who started a handshake and is told of its replies and its end. -/
inductive HandshakeOwner where
  | unstructured
  | managed
  | outside (policy : ReplyPolicy)
  deriving DecidableEq, Repr

inductive AbortRule where
  | decided (abort : Bool)
  /-- If there is a structured link to the peer, or an attempt to set one up. -/
  | structuredTo (a : RingAddress)
  deriving DecidableEq, Repr

structure HandshakeTask extends Handshake where
  owner : HandshakeOwner
  abort : AbortRule
  timeoutMs : Nat

inductive LinkRole where
  | keyed (k : AttemptKey)
  | untargeted
  | leaf
  deriving DecidableEq, Repr

structure QueryTask where
  inbox : List DiscoveryReply
  ended : Bool
  deriving DecidableEq, Repr

structure LoopTask where
  started : Bool
  feed : EventFeed
  nextBeat : Nat
  stopping : Bool
  deriving DecidableEq, Repr

inductive Task where
  | handshake (h : HandshakeTask)
  | link (role : LinkRole) (ended : Bool)
  /-- A handshake with a pinned peer that was put off: whether the pause has begun, and is over. -/
  | retry (a : RingAddress) (pausing due : Bool)
  | query (q : QueryTask)
  | drive (l : LoopTask)

/-- What a node asks of its surroundings, or tells them. -/
inductive NodeAction where
  /-- Make a connect call; its reply stream belongs to a task. -/
  | invoke (task : TaskId) (target : RpcTarget) (request : ConnectRequest)
  | link (task : TaskId) (request : LinkRequest)
  | close (edge : EdgeId) (reason : String)
  | query (task : TaskId) (query : DiscoveryQuery)
  | handed (reply : ConnectRequest)
  | report (r : HandshakeReport)
  /-- A number overflows, and what the node was asked breaks off there. -/
  | overflow

end RingOverlay
