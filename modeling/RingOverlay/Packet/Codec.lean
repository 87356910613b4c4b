import RingOverlay.Address.Text
import RingOverlay.Packet.Basic
/-!
The bytes of packets: a header of 48 bytes and the payload after it. Reading checks the length, the
version, the source, the destination and the delivery mode, in this order.
-/

set_option autoImplicit false
set_option relaxedAutoImplicit false

namespace RingOverlay

inductive PacketError where
  | truncated (needed got : Nat)
  | unsupportedVersion (version : UInt8)
  | unknownDelivery (code : UInt8)
  | address (reason : AddressError)
  deriving DecidableEq, Repr

namespace Packet

def version : UInt8 := 1

def headerLength : Nat := 48

def encode (p : Packet) : Bytes :=
  [version, p.delivery.code, p.payloadType, 0]
    ++ BigEndian.digits 2 p.hops.toNat
    ++ BigEndian.digits 2 p.ttl.toNat
    ++ p.source.toBytes
    ++ p.destination.toBytes
    ++ p.payload

def readDelivery (b : UInt8) : Except PacketError DeliveryMode :=
  match DeliveryMode.ofCode? b with
  | some m => .ok m
  | none => .error (.unknownDelivery b)

def part (bs : Bytes) (start length : Nat) : Bytes := (bs.drop start).take length

def decode (bs : Bytes) : Except PacketError Packet := do
  if bs.length < headerLength then throw (.truncated headerLength bs.length)
  if bs.getD 0 0 ≠ version then throw (.unsupportedVersion (bs.getD 0 0))
  let source ← (RingAddress.ofBytes (part bs 8 20)).mapError .address
  let destination ← (Address.ofBytes (part bs 28 20)).mapError .address
  let delivery ← readDelivery (bs.getD 1 0)
  return {
    hops := UInt16.ofNat (BigEndian.value (part bs 4 2))
    ttl := UInt16.ofNat (BigEndian.value (part bs 6 2))
    source, destination, delivery
    payloadType := bs.getD 2 0
    payload := bs.drop headerLength }

end Packet

def PacketError.message : PacketError → String
  | .truncated needed got => s!"packet truncated: need {needed} bytes, got {got}"
  | .unsupportedVersion v => "unsupported wire version 0x" ++ String.ofList (Hex.encode [v])
  | .unknownDelivery c => s!"unknown delivery mode {c.toNat}"
  | .address e => e.message

end RingOverlay
