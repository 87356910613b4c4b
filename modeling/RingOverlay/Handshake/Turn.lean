import RingOverlay.Handshake.Exchange
/-!
A handshake as it runs. When it is polled for the first time it is given up or makes its call. Each
later poll reads what came in, and ends the handshake or lets it rest again.
-/

set_option autoImplicit false
set_option relaxedAutoImplicit false

namespace RingOverlay

structure Handshake where
  exchange : Exchange
  calling : Bool
  inbox : List RpcEvent
  hungUp : Bool
  expired : Bool

inductive HandshakeTurn where
  | call (h : Handshake)
  | rest (h : Handshake)
  | done (r : HandshakeReport)

namespace Handshake

def begin (target : RpcTarget) (request : ConnectRequest) : Handshake :=
  ⟨⟨target, request, []⟩, false, [], false, false⟩

def receive (h : Handshake) (e : RpcEvent) : Handshake := { h with inbox := h.inbox ++ [e] }

def hangUp (h : Handshake) : Handshake := { h with hungUp := true }

def expire (h : Handshake) : Handshake := { h with expired := true }

def silence (h : Handshake) : Option StreamEnd :=
  if h.hungUp then some .hungUp else if h.expired then some .expired else none

/-- Polls a handshake; `abort` is the answer to whether it is still wanted at its start. -/
def turn {σ : Type} (here : RingAddress) (abort : Bool) (owner : ConnectRequest → σ → Bool × σ)
    (h : Handshake) (s : σ) : HandshakeTurn × σ :=
  if h.calling then
    let (ending, exchange, s) := h.exchange.listen here owner h.inbox s
    (match ending.orElse fun _ => h.silence with
      | some e => .done (exchange.conclude e)
      | none => .rest { h with exchange, inbox := [] }, s)
  else if abort then (.done h.exchange.abandon, s)
  else (.call { h with calling := true }, s)

end Handshake

end RingOverlay
