import RingOverlay.Bytes.BigEndian
/-!
Class tags. The low end of a 160-bit address holds a run of ones closed by a zero; the length of
the run is the class of the address.
-/

set_option autoImplicit false
set_option relaxedAutoImplicit false

namespace RingOverlay

abbrev AddressBits := BitVec 160

namespace AddressBits

def byteCount : Nat := 20

/-- The bits of a byte string of the right length, its first byte being the most significant. -/
def ofBytes? (bs : Bytes) : Option AddressBits :=
  if bs.length = byteCount then some (BitVec.ofNat 160 (BigEndian.value bs)) else none

def toBytes (a : AddressBits) : Bytes := BigEndian.digits byteCount a.toNat

/-- The number of ones below the lowest zero. -/
def classOf (a : AddressBits) : Nat :=
  ((List.range 160).takeWhile a.getLsbD).length

/-- Writes a class tag: the bits below position `c` become ones and the bit there, if there is one,
becomes zero. -/
def setClass (a : AddressBits) (c : Nat) : AddressBits :=
  let tag : AddressBits := 1 <<< min c 160
  (a ||| (tag - 1)) &&& ~~~tag

end AddressBits

inductive AddressClass where
  | ring
  | directional
  | flood
  | randomWalk
  deriving DecidableEq, Repr

namespace AddressClass

def tag : AddressClass → Nat
  | .ring => 0
  | .directional => 124
  | .flood => 126
  | .randomWalk => 159

def ofTag? : Nat → Option AddressClass
  | 0 => some .ring
  | 124 => some .directional
  | 126 => some .flood
  | 159 => some .randomWalk
  | _ => none

end AddressClass

end RingOverlay
