import RingOverlay.Address.Basic
/-!
The bytes of addresses. What an address carries beside its class stands at the high end: the
bearing or the probability in the first four bytes, and the first-hop flag in the bit below them.
-/

set_option autoImplicit false
set_option relaxedAutoImplicit false

namespace RingOverlay

namespace AddressBits

def read (bs : Bytes) : Except AddressError AddressBits :=
  match ofBytes? bs with
  | some b => .ok b
  | none => .error (.wrongLength bs.length)

def readClass (c : AddressClass) (bs : Bytes) : Except AddressError AddressBits := do
  let b ← read bs
  if b.classOf = c.tag then .ok b else .error (.wrongClass c.tag b.classOf)

def leading (b : AddressBits) : BitVec 32 := b.extractLsb' 128 32

/-- An address with a number in its first four bytes and the tag of a class. -/
def ofLeading (n : BitVec 32) (c : AddressClass) : AddressBits :=
  setClass (n.setWidth 160 <<< 128) c.tag

end AddressBits

def RingAddress.ofBytes (bs : Bytes) : Except AddressError RingAddress := do
  let b ← AddressBits.readClass .ring bs
  match RingAddress.ofBits? b with
  | some a => .ok a
  | none => .error (.wrongClass AddressClass.ring.tag b.classOf)

namespace Bearing

def toBits : Bearing → BitVec 32
  | .left => 0
  | .right => 1

def ofBits (n : BitVec 32) : Except AddressError Bearing :=
  if n = 0 then .ok .left else if n = 1 then .ok .right else .error (.unknownBearing n.toNat)

def ofBytes (bs : Bytes) : Except AddressError Bearing := do
  let b ← AddressBits.readClass .directional bs
  ofBits b.leading

def toAddressBits (d : Bearing) : AddressBits := .ofLeading d.toBits .directional

end Bearing

namespace FloodAddress

def flagBit : Nat := 127

def ofBytes (bs : Bytes) : Except AddressError FloodAddress := do
  let b ← AddressBits.readClass .flood bs
  let p : Single := ⟨b.leading⟩
  if p.inUnit then .ok ⟨b.getLsbD flagBit, p⟩ else .error (.malformed (.floodOutOfRange p))

def toAddressBits (a : FloodAddress) : AddressBits :=
  let b := AddressBits.ofLeading a.probability.bits .flood
  if a.firstHop then b ||| (1 <<< flagBit) else b

end FloodAddress

namespace Address

def readRandomWalk (bs : Bytes) : Except AddressError Unit := do
  let _ ← AddressBits.readClass .randomWalk bs
  .ok ()

def ofBytes (bs : Bytes) : Except AddressError Address := do
  let b ← AddressBits.read bs
  match AddressClass.ofTag? b.classOf with
  | some .ring => .ring <$> RingAddress.ofBytes bs
  | some .directional => .directional <$> Bearing.ofBytes bs
  | some .flood => .flood <$> FloodAddress.ofBytes bs
  | some .randomWalk => (fun _ => .randomWalk) <$> readRandomWalk bs
  | none => .error (.unknownClass b.classOf)

def toAddressBits : Address → AddressBits
  | .ring a => a.bits
  | .directional d => d.toAddressBits
  | .flood a => a.toAddressBits
  | .randomWalk => .setClass 0 AddressClass.randomWalk.tag

def toBytes (a : Address) : Bytes := a.toAddressBits.toBytes

end Address

end RingOverlay
