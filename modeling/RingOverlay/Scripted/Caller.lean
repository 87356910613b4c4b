import RingOverlay.Rpc.Basic
/-!
A call transport that records every call and whose reply streams are fed by a script.
-/

set_option autoImplicit false
set_option relaxedAutoImplicit false

namespace RingOverlay.Scripted

structure Invocation where
  target : RpcTarget
  method : String
  args : Value

structure ReplyStream where
  unread : List RpcEvent
  hasSender : Bool
  hasListener : Bool

inductive Receipt where
  | event (e : RpcEvent)
  | empty
  | ended
  | gone

namespace ReplyStream

def fresh : ReplyStream := ⟨[], true, true⟩

/-- Puts an event on the stream; tells whether it still has a listener. -/
def send (s : ReplyStream) (e : RpcEvent) : Bool × ReplyStream :=
  if s.hasListener then (true, { s with unread := s.unread ++ [e] }) else (false, s)

def receive (s : ReplyStream) : Receipt × ReplyStream :=
  if !s.hasListener then (.gone, s)
  else match s.unread with
    | e :: rest => (.event e, { s with unread := rest })
    | [] => (if s.hasSender then .empty else .ended, s)

def forget (s : ReplyStream) : Bool × ReplyStream :=
  (s.hasListener, { s with unread := [], hasListener := false })

def hangUp (s : ReplyStream) : ReplyStream := { s with hasSender := false }

end ReplyStream

structure Caller where
  calls : List Invocation
  streams : List ReplyStream

namespace Caller

def fresh : Caller := ⟨[], []⟩

def invoke (c : Caller) (i : Invocation) : Caller := ⟨c.calls ++ [i], c.streams ++ [.fresh]⟩

/-- Changes one stream; a number without a call gives a default answer. -/
def onStream {α : Type} (c : Caller) (call : Nat) (default : α) (f : ReplyStream → α × ReplyStream) :
    α × Caller :=
  match c.streams[call]? with
  | some s =>
    let (a, s) := f s
    (a, { c with streams := c.streams.set call s })
  | none => (default, c)

/-- Puts an event on the stream of a call; tells whether it has a listener. -/
def send (c : Caller) (call : Nat) (e : RpcEvent) : Bool × Caller :=
  c.onStream call false (·.send e)

def receive (c : Caller) (call : Nat) : Receipt × Caller := c.onStream call .gone (·.receive)

def forget (c : Caller) (call : Nat) : Bool × Caller := c.onStream call false (·.forget)

def retire (c : Caller) : Caller := { c with streams := c.streams.map (·.hangUp) }

end Caller

end RingOverlay.Scripted
