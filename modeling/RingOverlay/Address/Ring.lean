import RingOverlay.Address.Class
/-!
Positions on the ring: the addresses of class zero, which are the even numbers below `2 ^ 160`.
Walking left means towards larger numbers, with a wrap at the end.
-/

set_option autoImplicit false
set_option relaxedAutoImplicit false

namespace RingOverlay

@[ext] structure RingAddress where
  bits : AddressBits
  /-- The lowest bit is clear, so the class is zero. -/
  even : bits.getLsbD 0 = false
  deriving DecidableEq, Repr

namespace RingAddress

def value (a : RingAddress) : Nat := a.bits.toNat

theorem value_injective {a b : RingAddress} (h : a.value = b.value) : a = b :=
  RingAddress.ext (BitVec.eq_of_toNat_eq h)

def toBytes (a : RingAddress) : Bytes := a.bits.toBytes

def ofBits? (b : AddressBits) : Option RingAddress :=
  if h : b.getLsbD 0 = false then some ⟨b, h⟩ else none

/-- The position at or just below a 160-bit number. -/
def floor (b : AddressBits) : RingAddress where
  bits := b &&& ~~~1
  even := by simp

instance : Inhabited RingAddress := ⟨floor 0⟩

def lt (a b : RingAddress) : Bool := a.value < b.value

def compare (a b : RingAddress) : Ordering := Ord.compare a.value b.value

/-- The signed distance from `a` to `b`, at least `-2 ^ 159` and below `2 ^ 159`. -/
def distanceTo (a b : RingAddress) : Int := (b.bits - a.bits).toInt

def separation (a b : RingAddress) : Nat := (a.distanceTo b).natAbs

/-- How far one walks left from `a` to reach `b`. -/
def leftDistanceTo (a b : RingAddress) : Nat := (b.bits - a.bits).toNat

def rightDistanceTo (a b : RingAddress) : Nat := (a.bits - b.bits).toNat

/-- Whether `a` lies left of `b`: the distance from `b` to `a` is positive. -/
def isLeftOf (a b : RingAddress) : Bool := 0 < b.distanceTo a

/-- Whether `a` lies right of `b`: the distance from `b` to `a` is negative. -/
def isRightOf (a b : RingAddress) : Bool := b.distanceTo a < 0

/-- Whether `x` lies strictly inside the walk left from `a` to `b`. -/
def isBetweenFromLeft (x a b : RingAddress) : Bool :=
  a.leftDistanceTo x != 0 && a.leftDistanceTo x < a.leftDistanceTo b

def isBetweenFromRight (x a b : RingAddress) : Bool :=
  a.rightDistanceTo x != 0 && a.rightDistanceTo x < a.rightDistanceTo b

def isCloser (x a b : RingAddress) : Bool := x.separation a < x.separation b

end RingAddress

end RingOverlay
