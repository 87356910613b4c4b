import RingOverlay.Handshake.Basic
/-!
The reply stream of one handshake. Usable replies are shown to the owner one by one, until the owner
is satisfied or the stream ends. Replies that wait in the stream when the owner is satisfied are kept
but not shown.
-/

set_option autoImplicit false
set_option relaxedAutoImplicit false

namespace RingOverlay

inductive StreamEnd where
  | closed (reason : CloseReason)
  | hungUp
  | expired
  | satisfied
  deriving DecidableEq, Repr

/-- The error of a handshake that got no usable reply before its stream ended. -/
def StreamEnd.error : StreamEnd → HandshakeError
  | .closed reason => .ofClose reason
  | .hungUp => .noReply
  | .expired => .timeout
  | .satisfied => .noReply

/-- A handshake: its call, and the usable replies so far. -/
structure Exchange where
  target : RpcTarget
  request : ConnectRequest
  responses : List ConnectRequest
  deriving DecidableEq, Repr

/-- The reply that a value carries, unless it is malformed or describes the node itself. -/
def usableReply (here : RingAddress) (v : Value) : Option ConnectRequest :=
  match ConnectRequest.ofValue v with
  | .ok r => if r.target.address = here then none else some r
  | .error _ => none

def bufferedReplies (here : RingAddress) (inbox : List RpcEvent) : List ConnectRequest :=
  inbox.filterMap fun
    | .result v => usableReply here v
    | .closed _ => none

namespace Exchange

def record (x : Exchange) (rs : List ConnectRequest) : Exchange :=
  { x with responses := x.responses ++ rs }

/-- Reads the events that wait in the stream. The owner decides on each usable reply whether to go
on, and may change a state of its own on the way. -/
def listen {σ : Type} (here : RingAddress) (owner : ConnectRequest → σ → Bool × σ) :
    List RpcEvent → Exchange → σ → Option StreamEnd × Exchange × σ
  | [], x, s => (none, x, s)
  | .closed reason :: _, x, s => (some (.closed reason), x, s)
  | .result v :: rest, x, s =>
    match usableReply here v with
    | none => listen here owner rest x s
    | some r =>
      let (stop, s) := owner r s
      if stop then (some .satisfied, x.record (r :: bufferedReplies here rest), s)
      else listen here owner rest (x.record [r]) s

def abandon (x : Exchange) : HandshakeReport := ⟨x.target, x.request, .aborted, none, x.responses⟩

def conclude (x : Exchange) (e : StreamEnd) : HandshakeReport :=
  if x.responses.isEmpty then ⟨x.target, x.request, .failed, some e.error, []⟩
  else ⟨x.target, x.request, .succeeded, none, x.responses⟩

end Exchange

end RingOverlay
