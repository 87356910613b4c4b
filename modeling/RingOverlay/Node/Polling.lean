import RingOverlay.Node.Overlords
/-!
What a task of a node does when it is polled: it goes on with what came in for it since, and ends or
rests again.
-/

set_option autoImplicit false
set_option relaxedAutoImplicit false

namespace RingOverlay.Node

/-- What the owner of a handshake does with a usable reply; tells whether it stops listening. -/
def handleReply (owner : HandshakeOwner) (reply : ConnectRequest) (n : Node) : Bool × Node :=
  match owner with
  | .outside .collect => (false, n.act (.handed reply))
  | .outside .first => (true, n.act (.handed reply))
  | .outside .link | .unstructured | .managed => (true, (n.linkTo reply).2)

def managedFinished (n : Node) (r : HandshakeReport) : Node :=
  match r.target.exactAddress with
  | none => n
  | some a =>
    let (retry, managed) := n.managed.finish a (n.isConnected a)
    let n := { n with managed }
    if retry then n.spawn (.retry a false false) else n

def unstructuredFinished (n : Node) : Node :=
  let (gained, unstructured) := n.unstructured.finish
  let n := { n with unstructured }
  if gained then n.activateUnstructured else n

def finishHandshake (n : Node) (owner : HandshakeOwner) (r : HandshakeReport) : Node :=
  match owner with
  | .unstructured => n.unstructuredFinished
  | .managed => n.managedFinished r
  | .outside _ => n.act (.report r)

def shouldAbort (n : Node) : AbortRule → Bool
  | .decided b => b
  | .structuredTo a => n.isBusy a

def pollHandshake (n : Node) (id : TaskId) (h : HandshakeTask) : Node :=
  let (turn, n) := h.turn n.here (n.shouldAbort h.abort) (handleReply h.owner) n
  match turn with
  | .call toHandshake =>
    let n := n.act (.invoke id h.exchange.target h.exchange.request)
    (n.wakeAt (n.now + h.timeoutMs) id).setTask id (.handshake { h with toHandshake })
  | .rest toHandshake => n.setTask id (.handshake { h with toHandshake })
  | .done r => (n.endTask id).finishHandshake h.owner r

def pollLink (n : Node) (id : TaskId) (role : LinkRole) (ended : Bool) : Node :=
  if !ended then n
  else
    let n := n.endTask id
    match role with
    | .keyed k => n.workerFinished k
    | .untargeted => n
    | .leaf => { n with leaf := n.leaf.finish }.activateLeaf

def pollRetry (n : Node) (id : TaskId) (a : RingAddress) (pausing due : Bool) : Node :=
  if due then
    let n := n.endTask id
    if n.managed.wantsRetry a then n.connectPinned a else n
  else if pausing then n
  else (n.wakeAt (n.now + n.config.managed.retryDelayMs) id).setTask id (.retry a true false)

def learn (n : Node) (r : DiscoveryReply) : Node :=
  if DiscoveryOverlord.accepts n.here n.realm r then
    { n.addRemote r.transports with discovery := n.discovery.note r.address }
  else n

def pollQuery (n : Node) (id : TaskId) (q : QueryTask) : Node :=
  let n := q.inbox.foldl learn n
  if q.ended then { n.endTask id with discovery := n.discovery.finish }
  else n.setTask id (.query { q with inbox := [] })

def beatsDue (period now nextBeat : Nat) : Nat × Nat :=
  if now < nextBeat ∨ period = 0 then (0, nextBeat)
  else
    let beats := (now - nextBeat) / period + 1
    (beats, nextBeat + beats * period)

/-- Reads the table events of a loop. Where events were lost, the rest is skipped as well and the
policies look up their links instead. -/
def handleFeed (n : Node) (feed : EventFeed) : Node :=
  if feed.missed ≠ 0 then n.resync else feed.unread.foldl handleEvent n

def pollRunning (n : Node) (id : TaskId) (l : LoopTask) : Node :=
  if l.stopping then (n.endTask id).stop
  else
    let (beats, nextBeat) := beatsDue n.config.timing.heartbeatMs n.now l.nextBeat
    let n := Nat.repeat heartbeat beats n
    let n := n.handleFeed l.feed
    let n := if beats = 0 then n else n.wakeAt nextBeat id
    n.setTask id (.drive { l with feed := .fresh, nextBeat })

/-- Polls the loop that drives a node. Without a heartbeat period it ends at once. -/
def pollLoop (n : Node) (id : TaskId) (l : LoopTask) : Node :=
  if l.started then n.pollRunning id l
  else if n.config.timing.heartbeatMs = 0 then n.endTask id
  else n.start.pollRunning id { l with started := true, feed := .fresh, nextBeat := n.now }

def poll (n : Node) (id : TaskId) : Node :=
  match n.task? id with
  | some (.handshake h) => n.pollHandshake id h
  | some (.link role ended) => n.pollLink id role ended
  | some (.retry a pausing due) => n.pollRetry id a pausing due
  | some (.query q) => n.pollQuery id q
  | some (.drive l) => n.pollLoop id l
  | none => n

def expire (n : Node) (id : TaskId) : Node :=
  match n.task? id with
  | some (.handshake h) => n.resume id (.handshake { h with toHandshake := h.expire })
  | some (.retry a _ _) => n.resume id (.retry a true true)
  | some _ => n.wake id
  | none => n

end RingOverlay.Node
