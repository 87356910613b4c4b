import RingOverlay.Config.Basic
import RingOverlay.Message.Discovery
/-!
Local discovery: a node without any link asks its local segment for nodes of the same realm. What it
learns are endpoints to try; it sets up no link itself.
-/

set_option autoImplicit false
set_option relaxedAutoImplicit false

namespace RingOverlay

def mergeTransports (known new : List Transport) : List Transport :=
  new.foldl (fun ts t => if t ∈ ts then ts else ts ++ [t]) known

structure DiscoveryOverlord where
  active : Bool
  querying : Bool
  lastQuery : Option Nat
  /-- The nodes found so far, in ascending order of position. -/
  discovered : List RingAddress
  deriving DecidableEq, Repr

namespace DiscoveryOverlord

def capacity : Nat := 64

def fresh : DiscoveryOverlord := ⟨false, false, none, []⟩

def isDue (o : DiscoveryOverlord) (cfg : DiscoveryConfig) (now : Nat) : Bool :=
  match o.lastQuery with
  | some t => cfg.announceIntervalMs ≤ now - t
  | none => true

/-- Asks the local segment if the node has no link and a query is due; tells whether one is to be
sent. -/
def activate (o : DiscoveryOverlord) (cfg : DiscoveryConfig) (now links : Nat) : Bool × DiscoveryOverlord :=
  if o.active && cfg.enabled && links == 0 && !o.querying && o.isDue cfg now then
    (true, { o with querying := true, lastQuery := some now })
  else (false, o)

def accepts (here : RingAddress) (realm : String) (r : DiscoveryReply) : Bool :=
  r.realm == realm && r.address != here

def insertAddress (a : RingAddress) (as : List RingAddress) : List RingAddress :=
  if a ∈ as then as else as.takeWhile (·.lt a) ++ a :: as.dropWhile (·.lt a)

def note (o : DiscoveryOverlord) (a : RingAddress) : DiscoveryOverlord :=
  { o with discovered := insertAddress a o.discovered }

def finish (o : DiscoveryOverlord) : DiscoveryOverlord := { o with querying := false }

end DiscoveryOverlord

end RingOverlay
