import RingOverlay.Address.Codec
import RingOverlay.Hash.Blake3
import RingOverlay.Random.Words
/-!
Positions that are not given as such: derived from seed material, or drawn at random.
-/

set_option autoImplicit false
set_option relaxedAutoImplicit false

namespace RingOverlay.RingAddress

def floorOfBytes (bs : Bytes) : RingAddress := floor (BitVec.ofNat 160 (BigEndian.value bs))

def ofSeed (seed : Bytes) : RingAddress :=
  floorOfBytes ((Blake3.hash seed).take AddressBits.byteCount)

def random (ws : Words) : RingAddress × Words :=
  let (bs, ws) := Words.bytes AddressBits.byteCount ws
  (floorOfBytes bs, ws)

end RingOverlay.RingAddress
