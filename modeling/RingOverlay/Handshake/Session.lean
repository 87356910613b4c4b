import RingOverlay.Handshake.Turn
/-!
A handshake between its owner and a transport. Replies come in one by one, the handshake is polled
now and then, and at last the sender goes away or the time is up. What the surroundings see of it are
the calls it makes, the replies it shows to the owner and the reports it hands in.
-/

set_option autoImplicit false
set_option relaxedAutoImplicit false

namespace RingOverlay

/-- Something that happens while replies may still come. -/
inductive StreamStep where
  | arrive (e : RpcEvent)
  | poll

/-- Why no further replies come. -/
inductive StreamStop where
  | hungUp
  | expired
  deriving DecidableEq, Repr

def StreamStop.ending : StreamStop → StreamEnd
  | .hungUp => .hungUp
  | .expired => .expired

structure Session (σ : Type) where
  task : Option Handshake
  owner : σ
  calls : List (RpcTarget × ConnectRequest)
  shown : List ConnectRequest
  reports : List HandshakeReport

namespace Session

variable {σ : Type}

def noting (owner : ConnectRequest → σ → Bool × σ) (r : ConnectRequest)
    (s : σ × List ConnectRequest) : Bool × σ × List ConnectRequest :=
  let (stop, t) := owner r s.1
  (stop, t, s.2 ++ [r])

def begin (target : RpcTarget) (request : ConnectRequest) (owner : σ) : Session σ :=
  ⟨some (.begin target request), owner, [], [], []⟩

def update (x : Session σ) (f : Handshake → Handshake) : Session σ := { x with task := x.task.map f }

def stop (x : Session σ) : StreamStop → Session σ
  | .hungUp => x.update .hangUp
  | .expired => x.update .expire

section Running

variable (here : RingAddress) (abort : Bool) (owner : ConnectRequest → σ → Bool × σ)

def poll (x : Session σ) : Session σ :=
  match x.task with
  | none => x
  | some h =>
    let (turn, s, shown) := h.turn here abort (noting owner) (x.owner, x.shown)
    match turn with
    | .call h =>
      { x with
        task := some h, owner := s, shown
        calls := x.calls ++ [(h.exchange.target, h.exchange.request)] }
    | .rest h => { x with task := some h, owner := s, shown }
    | .done r => { x with task := none, owner := s, shown, reports := x.reports ++ [r] }

def step (x : Session σ) : StreamStep → Session σ
  | .arrive e => x.update (·.receive e)
  | .poll => x.poll here abort owner

def run (x : Session σ) (steps : List StreamStep) : Session σ := steps.foldl (step here abort owner) x

def complete (x : Session σ) (steps : List StreamStep) (stop : StreamStop) : Session σ :=
  (((x.poll here abort owner).run here abort owner steps).stop stop).poll here abort owner

end Running

end Session

end RingOverlay
