import Mathlib.Tactic.NormNum
import RingOverlay.Address.Ring
/-!
Walks around the circle and the size of distances. The shorter of the two walks between positions
gives their separation, and whoever is nearer to a destination lies, seen from a position, behind one
of its two neighbours: so one of these is nearer as well.
-/

set_option autoImplicit false
set_option relaxedAutoImplicit false

namespace RingOverlay.RingAddress

theorem value_lt (a : RingAddress) : a.value < 2 ^ 160 := a.bits.isLt

theorem leftDistanceTo_lt (a b : RingAddress) : a.leftDistanceTo b < 2 ^ 160 :=
  BitVec.isLt _

theorem leftDistanceTo_eq_value (a b : RingAddress) : a.leftDistanceTo b =
    if a.value ≤ b.value then b.value - a.value else 2 ^ 160 + b.value - a.value := by
  unfold leftDistanceTo value
  rw [BitVec.toNat_sub]
  have ha := a.bits.isLt
  have hb := b.bits.isLt
  norm_num at *
  split <;> omega

theorem separation_eq_min (a b : RingAddress) :
    a.separation b = min (a.leftDistanceTo b) (2 ^ 160 - a.leftDistanceTo b) := by
  unfold separation distanceTo leftDistanceTo
  have bound := (b.bits - a.bits).isLt
  rw [BitVec.toInt_eq_toNat_cond]
  generalize (b.bits - a.bits).toNat = d at *
  norm_num at *
  split <;> omega

theorem leftDistanceTo_eq (x a b : RingAddress) : a.leftDistanceTo b =
    if x.leftDistanceTo a ≤ x.leftDistanceTo b then x.leftDistanceTo b - x.leftDistanceTo a
    else 2 ^ 160 + x.leftDistanceTo b - x.leftDistanceTo a := by
  unfold leftDistanceTo
  rw [BitVec.toNat_sub, BitVec.toNat_sub, BitVec.toNat_sub]
  have ha := a.bits.isLt
  have hb := b.bits.isLt
  have hx := x.bits.isLt
  norm_num at *
  split <;> omega

theorem rightDistanceTo_eq (a b : RingAddress) : a.rightDistanceTo b = b.leftDistanceTo a := rfl

theorem leftDistanceTo_pos {a b : RingAddress} (h : b ≠ a) : 0 < a.leftDistanceTo b := by
  apply Nat.pos_of_ne_zero
  intro none_left
  have same : b.bits - a.bits = 0#160 := BitVec.eq_of_toNat_eq none_left
  rw [BitVec.sub_eq_iff_eq_add, BitVec.zero_add] at same
  exact h (RingAddress.ext same)

/-- If a position lies nearer to a destination than `x`, then so does the first of several positions
met on a walk from `x`, either to the left or to the right. -/
theorem nearer_neighbor {x y dest left right : RingAddress}
    (nearer : dest.separation y < dest.separation x) (left_ne : left ≠ x) (right_ne : right ≠ x)
    (first_left : x.leftDistanceTo left ≤ x.leftDistanceTo y)
    (first_right : x.rightDistanceTo right ≤ x.rightDistanceTo y) :
    dest.separation left < dest.separation x ∨ dest.separation right < dest.separation x := by
  have left_pos := leftDistanceTo_pos left_ne
  have right_pos := leftDistanceTo_pos right_ne.symm
  rw [rightDistanceTo_eq, rightDistanceTo_eq, leftDistanceTo_eq dest right,
    leftDistanceTo_eq dest y] at first_right
  rw [leftDistanceTo_eq dest x, leftDistanceTo_eq dest x] at first_left
  rw [leftDistanceTo_eq dest x] at left_pos
  rw [leftDistanceTo_eq dest right] at right_pos
  rw [separation_eq_min, separation_eq_min] at nearer ⊢
  rw [separation_eq_min]
  have hx := dest.leftDistanceTo_lt x
  have hy := dest.leftDistanceTo_lt y
  have hl := dest.leftDistanceTo_lt left
  have hr := dest.leftDistanceTo_lt right
  generalize dest.leftDistanceTo x = u at *
  generalize dest.leftDistanceTo y = v at *
  generalize dest.leftDistanceTo left = l at *
  generalize dest.leftDistanceTo right = r at *
  norm_num at *
  -- On the left half the way leads to the right, on the right half to the left.
  rcases Nat.le_total (2 * u) (2 ^ 160) with half | half
  · right
    clear first_left left_pos
    split_ifs at first_right right_pos <;> omega
  · left
    clear first_right right_pos
    split_ifs at first_left left_pos <;> omega

end RingOverlay.RingAddress
