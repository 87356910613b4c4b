import RingOverlay.Address.Ring
import RingOverlay.Bytes.Hex
import RingOverlay.Number.Float
/-!
Routable addresses of the four classes, and what can be wrong with the bytes or the text of one.
-/

set_option autoImplicit false
set_option relaxedAutoImplicit false

namespace RingOverlay

/-- A direction along the ring. -/
inductive Bearing where
  | left
  | right
  deriving DecidableEq, Repr

structure FloodAddress where
  firstHop : Bool
  probability : Single
  deriving DecidableEq, Repr

namespace FloodAddress

def ofProbability (firstHop : Bool) (p : Single) : FloodAddress := ⟨firstHop, p.clampUnit⟩

def withoutFirstHop (a : FloodAddress) : FloodAddress := { a with firstHop := false }

def isUnicast (a : FloodAddress) : Bool := a.probability.eq .zero

end FloodAddress

inductive Address where
  | ring (position : RingAddress)
  | directional (bearing : Bearing)
  | flood (target : FloodAddress)
  | randomWalk
  deriving DecidableEq, Repr

inductive AddressFault where
  | missingStart
  | badHex (reason : HexError)
  | floodOutOfRange (probability : Single)
  deriving DecidableEq, Repr

inductive AddressError where
  | wrongClass (expected found : Nat)
  | unknownClass (found : Nat)
  | wrongLength (found : Nat)
  | unknownBearing (found : Nat)
  | malformed (fault : AddressFault)
  deriving DecidableEq, Repr

namespace Address

instance : Inhabited Address := ⟨.randomWalk⟩

def addressClass : Address → AddressClass
  | .ring _ => .ring
  | .directional _ => .directional
  | .flood _ => .flood
  | .randomWalk => .randomWalk

def isUnicast : Address → Bool
  | .flood a => a.isUnicast
  | _ => true

/-- Numeric equality: the probabilities of floods are compared as numbers. -/
def same : Address → Address → Bool
  | .flood a, .flood b => a.firstHop == b.firstHop && a.probability.eq b.probability
  | a, b => decide (a = b)

end Address

end RingOverlay
