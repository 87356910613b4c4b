import RingOverlay.Address.Codec
import RingOverlay.Number.Shortest
import RingOverlay.Text.Quoted
import RingOverlay.Text.Utf8
/-!
The text form of addresses, a fixed start followed by forty hexadecimal digits, and the wording of
what is wrong with an address.
-/

set_option autoImplicit false
set_option relaxedAutoImplicit false

namespace RingOverlay

/-- The wording of a fault in hexadecimal text; the byte at fault is shown as one character. -/
def HexError.message : HexError → String
  | .oddLength => "Odd number of digits"
  | .badDigit b i => s!"Invalid character {Quoted.char (Char.ofNat b.toNat)} at position {i}"

namespace Address

def textStart : String := "ringmesh:node:"

def textOfBits (b : AddressBits) : String :=
  textStart ++ String.ofList (Hex.encode b.toBytes)

def text (a : Address) : String := textOfBits a.toAddressBits

def afterStart? : (start : List Char) → List Char → Option (List Char)
  | [], cs => some cs
  | _ :: _, [] => none
  | s :: start, c :: cs => if s = c then afterStart? start cs else none

def ofText (s : String) : Except AddressError Address :=
  match afterStart? textStart.toList s.toList with
  | none => .error (.malformed .missingStart)
  | some rest =>
    match Hex.decode (Utf8.encode rest) with
    | .error e => .error (.malformed (.badHex e))
    | .ok bs => ofBytes bs

end Address

def AddressFault.message : AddressFault → String
  | .missingStart => s!"missing {Address.textStart} prefix"
  | .badHex e => e.message
  | .floodOutOfRange p => s!"flood probability {p.text} out of range"

def AddressError.message : AddressError → String
  | .wrongClass expected found => s!"invalid address class: expected {expected}, found {found}"
  | .unknownClass found => s!"no address type for class {found}"
  | .wrongLength found => s!"address must be {AddressBits.byteCount} bytes, got {found}"
  | .unknownBearing found => s!"invalid directional bearing {found}"
  | .malformed fault => s!"cannot parse address: {fault.message}"

namespace RingAddress

def text (a : RingAddress) : String := Address.textOfBits a.bits

def ofText (s : String) : Except AddressError RingAddress := do
  match ← Address.ofText s with
  | .ring a => .ok a
  | other => .error (.wrongClass AddressClass.ring.tag other.addressClass.tag)

def short (a : RingAddress) : String := String.ofList (Hex.encode (a.toBytes.take 4))

end RingAddress

end RingOverlay
