import Mathlib.Tactic.NormNum
import RingOverlay.Address.Ring
/-!
The size of the distance between two positions: it is the same in both directions, and it is zero
only from a position to itself.
-/

set_option autoImplicit false
set_option relaxedAutoImplicit false

namespace RingOverlay.RingAddress

theorem separation_comm (a b : RingAddress) : a.separation b = b.separation a := by
  have back : a.bits - b.bits = -(b.bits - a.bits) := by
    rw [BitVec.neg_sub, BitVec.add_comm, ← BitVec.sub_eq_add_neg]
  unfold separation distanceTo
  rw [back, BitVec.toInt_neg]
  have low := BitVec.le_toInt (b.bits - a.bits)
  have high := BitVec.toInt_lt (x := b.bits - a.bits)
  generalize (b.bits - a.bits).toInt = d at *
  rw [Int.bmod_def]
  norm_num at *
  split <;> omega

theorem separation_self (a : RingAddress) : a.separation a = 0 := by
  rw [separation, distanceTo, BitVec.sub_self, BitVec.toInt_zero, Int.natAbs_zero]

theorem separation_eq_zero_iff {a b : RingAddress} : a.separation b = 0 ↔ a = b := by
  constructor
  · intro h
    have none_apart : b.bits - a.bits = 0#160 := by
      rw [← BitVec.toInt_inj, BitVec.toInt_zero]
      exact Int.natAbs_eq_zero.mp h
    have same : b.bits = a.bits := by
      rw [BitVec.sub_eq_iff_eq_add, BitVec.zero_add] at none_apart
      exact none_apart
    exact RingAddress.ext same.symm
  · rintro rfl
    exact separation_self a

end RingOverlay.RingAddress
