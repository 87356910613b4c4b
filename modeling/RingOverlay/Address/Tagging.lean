import RingOverlay.Bytes.BigEndian
/-!
Class tags on byte strings. A tag is counted from the last byte on, up to the first byte that holds
a zero, and written bit by bit. Bits are counted from the end.
-/

set_option autoImplicit false
set_option relaxedAutoImplicit false

namespace RingOverlay

namespace Tagging

def onesInByte (b : UInt8) : Nat := ((List.range 8).takeWhile b.toNat.testBit).length

/-- The length of the run of ones in bytes that come the least significant first. A byte that holds
a zero ends it. -/
def runOfOnes : List UInt8 → Nat
  | [] => 0
  | b :: higher => if onesInByte b < 8 then onesInByte b else onesInByte b + runOfOnes higher

/-- The number of ones at the end of a byte string. -/
def count (bs : Bytes) : Nat := runOfOnes bs.reverse

def byteOf (bs : Bytes) (i : Nat) : Nat := bs.length - 1 - i / 8

def bitInByte (i : Nat) : UInt8 := 1 <<< UInt8.ofNat (i % 8)

def setBit (bs : Bytes) (i : Nat) : Bytes := bs.modify (byteOf bs i) (· ||| bitInByte i)

def clearBit (bs : Bytes) (i : Nat) : Bytes := bs.modify (byteOf bs i) (· &&& ~~~bitInByte i)

/-- Writes the tag of a class: sets the bits below position `c` and clears the bit there, as far as
there are such bits. -/
def write (bs : Bytes) (c : Nat) : Bytes :=
  let width := 8 * bs.length
  let ones := (List.range (min c width)).foldl setBit bs
  if c < width then clearBit ones c else ones

end Tagging

end RingOverlay
