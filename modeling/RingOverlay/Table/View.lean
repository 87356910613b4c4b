import RingOverlay.Connection.Basic
import RingOverlay.Random.Words
/-!
The links of one type in ascending order of position, which are looked up by halving. Seen as a ring,
the first link follows the last one.
-/

set_option autoImplicit false
set_option relaxedAutoImplicit false

namespace RingOverlay

structure RingView where
  connections : List Connection
  deriving DecidableEq, Repr

inductive ViewPosition where
  | found (index : Nat)
  | insertAt (index : Nat)
  deriving DecidableEq, Repr

namespace RingView

def empty : RingView := ⟨[]⟩

def size (v : RingView) : Nat := v.connections.length

def isEmpty (v : RingView) : Bool := v.connections.isEmpty

/-- Halves a run of links until one is left: the last one that does not stand beyond a position, or
the first of the run. -/
def narrow (cs : List Connection) (a : RingAddress) (base size : Nat) : Nat :=
  if size ≤ 1 then base
  else if cs[base + size / 2]?.any fun c => a.lt c.address then narrow cs a base (size - size / 2)
  else narrow cs a (base + size / 2) (size - size / 2)
termination_by size
decreasing_by all_goals omega

def position (v : RingView) (a : RingAddress) : ViewPosition :=
  let i := narrow v.connections a 0 v.size
  match v.connections[i]? with
  | some c =>
    match c.address.compare a with
    | .lt => .insertAt (i + 1)
    | .eq => .found i
    | .gt => .insertAt i
  | none => .insertAt i

def find? (v : RingView) (a : RingAddress) : Option Connection :=
  match v.position a with
  | .found i => v.connections[i]?
  | .insertAt _ => none

def hasEdge (v : RingView) (e : EdgeId) : Bool := v.connections.any (·.edge == e)

def onEdge (v : RingView) (e : EdgeId) : List Connection := v.connections.filter (·.edge == e)

def insert (v : RingView) (i : Nat) (c : Connection) : RingView :=
  ⟨v.connections.take i ++ c :: v.connections.drop i⟩

/-- Takes out the links that an edge carries, and tells which they were. -/
def detach (v : RingView) (e : EdgeId) : List Connection × RingView :=
  let (gone, kept) := v.connections.partition (·.edge == e)
  (gone, ⟨kept⟩)

def get? (v : RingView) (index : Int) : Option Connection :=
  v.connections[(index % v.size).toNat]?

def leftOf (v : RingView) (a : RingAddress) : Option Connection :=
  match v.position a with
  | .found i => v.get? ((i : Int) + 1)
  | .insertAt i => v.get? i

def rightOf (v : RingView) (a : RingAddress) : Option Connection :=
  match v.position a with
  | .found i => v.get? ((i : Int) - 1)
  | .insertAt i => v.get? ((i : Int) - 1)

/-- All links by their distance from a position; links at equal distance stay in order. -/
def byDistance (v : RingView) (a : RingAddress) : List Connection :=
  v.connections.mergeSort fun c d => a.separation c.address ≤ a.separation d.address

/-- At most `n` links, the nearest to a position first. -/
def nearest (v : RingView) (a : RingAddress) (n : Nat) : List Connection := (v.byDistance a).take n

def avoiding (v : RingView) (exclude : Option EdgeId) : List Connection :=
  v.connections.filter fun c => some c.edge != exclude

def random (v : RingView) (exclude : Option EdgeId) (ws : Words) : Option Connection × Words :=
  ws.choose (v.avoiding exclude)

end RingView

end RingOverlay
