import RingOverlay.Bytes.BigEndian
/-!
Byte strings as pairs of hexadecimal digits. Writing uses lower case; reading takes either case.
-/

set_option autoImplicit false
set_option relaxedAutoImplicit false

namespace RingOverlay

inductive HexError where
  | oddLength
  | badDigit (byte : UInt8) (position : Nat)
  deriving DecidableEq, Repr

namespace Hex

def digit (n : Nat) : Char :=
  if n < 10 then Char.ofNat (48 + n) else Char.ofNat (87 + n)

def digitValue? (b : UInt8) : Option Nat :=
  let n := b.toNat
  if 48 ≤ n ∧ n ≤ 57 then some (n - 48)
  else if 97 ≤ n ∧ n ≤ 102 then some (n - 87)
  else if 65 ≤ n ∧ n ≤ 70 then some (n - 55)
  else none

/-- Two digits for each byte, the high half first. -/
def encode (bs : Bytes) : List Char :=
  bs.flatMap fun b => [digit (b.toNat / 16), digit (b.toNat % 16)]

def readDigit (b : UInt8) (position : Nat) : Except HexError Nat :=
  match digitValue? b with
  | some n => .ok n
  | none => .error (.badDigit b position)

def readPairs : (position : Nat) → Bytes → Except HexError Bytes
  | position, high :: low :: rest => do
    let h ← readDigit high position
    let l ← readDigit low (position + 1)
    let bs ← readPairs (position + 2) rest
    .ok (UInt8.ofNat (16 * h + l) :: bs)
  | _, _ => .ok []

/-- Reads a whole text of digit pairs; its length is checked before its digits. -/
def decode (text : Bytes) : Except HexError Bytes :=
  if text.length % 2 = 1 then .error .oddLength else readPairs 0 text

end Hex

end RingOverlay
