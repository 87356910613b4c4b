/-!
Byte strings, and the numbers they spell with the most significant byte first.
-/

set_option autoImplicit false
set_option relaxedAutoImplicit false

namespace RingOverlay

abbrev Bytes := List UInt8

namespace BigEndian

/-- The number that a byte string spells, its first byte being the most significant. -/
def value (bs : Bytes) : Nat :=
  bs.foldl (fun n b => 256 * n + b.toNat) 0

/-- The last `len` digits of `n` in base 256, the most significant first. -/
def digits : (len : Nat) → (n : Nat) → Bytes
  | 0, _ => []
  | len + 1, n => digits len (n / 256) ++ [UInt8.ofNat n]

@[simp] theorem length_digits (len n : Nat) : (digits len n).length = len := by
  induction len generalizing n with
  | zero => rfl
  | succ len ih => simp [digits, ih]

end BigEndian

end RingOverlay
