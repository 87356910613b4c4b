import Mathlib.Data.List.Induction
import Mathlib.Data.Nat.Bitwise
import Mathlib.Tactic.Ring
import RingOverlay.Bytes.BigEndian
/-!
Numbers as byte strings: a number is read back from its digits, as far as they reach, and digits are
written back from the number they spell. Bits are counted from the end of a byte string.
-/

set_option autoImplicit false
set_option relaxedAutoImplicit false

namespace RingOverlay.BigEndian

variable {bs : Bytes} {i j : Nat}

@[simp] theorem value_append_singleton (bs : Bytes) (b : UInt8) :
    value (bs ++ [b]) = 256 * value bs + b.toNat := by
  simp [value]

theorem value_digits (len n : Nat) : value (digits len n) = n % 256 ^ len := by
  induction len generalizing n with
  | zero => simp [digits, value, Nat.mod_one]
  | succ len ih =>
    have split : 256 ^ (len + 1) = 256 * 256 ^ len := Nat.pow_succ'
    rw [digits, value_append_singleton, ih, UInt8.toNat_ofNat', split, Nat.mod_mul]
    omega

theorem value_append (xs ys : Bytes) : value (xs ++ ys) = value xs * 256 ^ ys.length + value ys := by
  induction ys using List.reverseRecOn with
  | nil => simp [value]
  | append_singleton ys b ih =>
    have grown : 256 ^ (ys ++ [b]).length = 256 ^ ys.length * 256 := by
      rw [List.length_append, List.length_singleton, Nat.pow_succ]
    rw [← List.append_assoc, value_append_singleton, value_append_singleton, ih, grown]
    ring

theorem value_lt (bs : Bytes) : value bs < 256 ^ bs.length := by
  induction bs using List.reverseRecOn with
  | nil => simp [value]
  | append_singleton bs b ih =>
    have digit : b.toNat < 256 := b.toNat_lt
    rw [value_append_singleton, List.length_append, List.length_singleton, Nat.pow_succ]
    omega

theorem digits_value (bs : Bytes) : digits bs.length (value bs) = bs := by
  induction bs using List.reverseRecOn with
  | nil => rfl
  | append_singleton bs b ih =>
    have digit : b.toNat < 256 := b.toNat_lt
    have quotient : (256 * value bs + b.toNat) / 256 = value bs := by omega
    have last : UInt8.ofNat (256 * value bs + b.toNat) = b := by
      apply UInt8.toNat_inj.mp
      rw [UInt8.toNat_ofNat']
      omega
    rw [List.length_append, List.length_singleton, digits, value_append_singleton, quotient, ih, last]

/-- A bit of the number that a byte string spells, counted from its end. -/
def bit (bs : Bytes) (i : Nat) : Bool := (bs.reverse.getD (i / 8) 0).toNat.testBit (i % 8)

theorem testBit_value (bs : Bytes) (i : Nat) : (value bs).testBit i = bit bs i := by
  induction bs using List.reverseRecOn generalizing i with
  | nil => simp [value, bit]
  | append_singleton bs b ih =>
    have digit : b.toNat < 2 ^ 8 := b.toNat_lt
    rw [value_append_singleton, show 256 = 2 ^ 8 from rfl, Nat.testBit_two_pow_mul_add _ digit]
    split
    · rename_i low
      simp [bit, Nat.div_eq_of_lt low, Nat.mod_eq_of_lt low]
    · rename_i high
      have place : i / 8 = (i - 8) / 8 + 1 := by omega
      have rest : i % 8 = (i - 8) % 8 := by omega
      rw [ih]
      simp [bit, place, rest]

theorem eq_of_bit_eq {xs ys : Bytes} (length : xs.length = ys.length)
    (bits : ∀ i, bit xs i = bit ys i) : xs = ys := by
  have same : value xs = value ys := by
    apply Nat.eq_of_testBit_eq
    intro i
    rw [testBit_value, testBit_value, bits]
  rw [← digits_value xs, ← digits_value ys, length, same]

/-- The bits that a byte string spells end in a run of exactly `n` ones. -/
def EndsInOnes (bs : Bytes) (n : Nat) : Prop := (∀ i < n, bit bs i = true) ∧ bit bs n = false

theorem bit_of_byte (inside : j < bs.length) (here : i / 8 = bs.length - 1 - j) :
    bit bs i = bs[j].toNat.testBit (i % 8) := by
  have low : i / 8 < bs.length := by omega
  have place : bs.length - 1 - i / 8 = j := by omega
  rw [bit, List.getD_eq_getElem?_getD, List.getElem?_reverse low, place,
    List.getElem?_eq_getElem inside, Option.getD_some]

theorem bit_modify_of_ne (f : UInt8 → UInt8) (inside : j < bs.length)
    (elsewhere : i / 8 ≠ bs.length - 1 - j) : bit (bs.modify j f) i = bit bs i := by
  unfold bit
  rw [List.getD_eq_getElem?_getD, List.getD_eq_getElem?_getD]
  rcases Nat.lt_or_ge (i / 8) bs.length with low | high
  · have apart : j ≠ bs.length - 1 - i / 8 := by omega
    rw [List.getElem?_reverse (by simpa using low), List.getElem?_reverse low, List.length_modify,
      List.getElem?_modify_ne f bs apart]
  · rw [List.getElem?_eq_none (by simpa using high), List.getElem?_eq_none (by simpa using high)]

theorem testBit_and_mask (b : UInt8) (k : Nat) :
    (b &&& 0x1f).toNat.testBit k = (b.toNat.testBit k && decide (k < 5)) := by
  have mask : (0x1f : UInt8).toNat = 2 ^ 5 - 1 := rfl
  rw [UInt8.toNat_and, Nat.testBit_and, mask, Nat.testBit_two_pow_sub_one]

end RingOverlay.BigEndian
