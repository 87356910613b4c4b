import Mathlib.Data.Int.ModEq
import RingOverlay.Proofs.Address.Circle
import RingOverlay.Proofs.Address.Distance
/-!
The signed distance of positions and its size. The distance is the one number of the range from half a
turn back to just before half a turn on that leads to the other position, so no other way there is
shorter. This gives the triangle inequality. In the two directions the distances are opposite and the
sides are mirrored, except at half a turn, which counts as a way back in both directions.
-/

set_option autoImplicit false
set_option relaxedAutoImplicit false

namespace RingOverlay.RingAddress

/-- Two positions are half a turn apart. -/
def Antipodes (x y : RingAddress) : Prop := (y.value : Int) - x.value ≡ 2 ^ 159 [ZMOD 2 ^ 160]

section

variable {x y z : RingAddress} {d : Int}

theorem toInt_modEq_value (x : RingAddress) : x.bits.toInt ≡ x.value [ZMOD 2 ^ 160] := by
  rw [BitVec.toInt_eq_toNat_bmod]
  exact Int.bmod_emod

theorem distanceTo_eq_iff : x.distanceTo y = d ↔
    -2 ^ 159 ≤ d ∧ d < 2 ^ 159 ∧ d ≡ y.value - x.value [ZMOD 2 ^ 160] := by
  have hd : d ≡ y.bits.toInt - x.bits.toInt [ZMOD 2 ^ 160] ↔
      d ≡ y.value - x.value [ZMOD 2 ^ 160] := by
    have h := y.toInt_modEq_value.sub x.toInt_modEq_value
    exact ⟨fun hd => hd.trans h, fun hd => hd.trans h.symm⟩
  rw [distanceTo, BitVec.toInt_sub, Int.bmod_eq_iff (by norm_num), ← hd, Int.modEq_comm,
    Int.modEq_iff_dvd]
  norm_num

theorem distanceTo_modEq (x y : RingAddress) :
    x.distanceTo y ≡ y.value - x.value [ZMOD 2 ^ 160] :=
  (distanceTo_eq_iff.mp rfl).2.2

theorem le_distanceTo (x y : RingAddress) : -2 ^ 159 ≤ x.distanceTo y := (distanceTo_eq_iff.mp rfl).1

theorem distanceTo_lt (x y : RingAddress) : x.distanceTo y < 2 ^ 159 := (distanceTo_eq_iff.mp rfl).2.1

theorem distanceTo_eq_zero_iff : x.distanceTo y = 0 ↔ x = y := by
  rw [← separation_eq_zero_iff, separation, Int.natAbs_eq_zero]

theorem antipodes_comm : Antipodes x y ↔ Antipodes y x := by
  have mirror {x y : RingAddress} (h : Antipodes x y) : Antipodes y x := by
    have hneg := h.neg
    rw [neg_sub] at hneg
    exact hneg.trans (by decide)
  exact ⟨mirror, mirror⟩

theorem antipodes_iff : Antipodes x y ↔ x.distanceTo y = -2 ^ 159 := by
  rw [distanceTo_eq_iff]
  have half : (-2 ^ 159 : Int) ≡ 2 ^ 159 [ZMOD 2 ^ 160] := by decide
  constructor
  · intro h
    exact ⟨le_refl _, by norm_num, half.trans h.symm⟩
  · rintro ⟨-, -, h⟩
    exact h.symm.trans half

theorem distanceTo_comm_iff : x.distanceTo y = -y.distanceTo x ↔ ¬Antipodes x y := by
  constructor
  · intro h hxy
    rw [antipodes_iff.mp hxy, antipodes_iff.mp (antipodes_comm.mp hxy)] at h
    norm_num at h
  · intro hxy
    have hne : y.distanceTo x ≠ -2 ^ 159 := fun h => hxy (antipodes_comm.mp (antipodes_iff.mpr h))
    have low := le_distanceTo y x
    have high := distanceTo_lt y x
    have hmod := (distanceTo_modEq y x).neg
    rw [neg_sub] at hmod
    exact distanceTo_eq_iff.mpr ⟨by omega, by omega, hmod⟩

/-! The size of the distance. -/

theorem separation_le (x y : RingAddress) : x.separation y ≤ 2 ^ 159 := by
  have low := le_distanceTo x y
  have high := distanceTo_lt x y
  unfold separation
  omega

theorem separation_le_natAbs (way : d ≡ y.value - x.value [ZMOD 2 ^ 160]) :
    x.separation y ≤ d.natAbs := by
  obtain ⟨turns, hturns⟩ := ((distanceTo_modEq x y).trans way.symm).dvd
  have hle := separation_le x y
  unfold separation at *
  -- Every turn more makes the way longer by two halves, and the distance is at most one half.
  rcases lt_trichotomy turns 0 with h | rfl | h <;> omega

theorem separation_triangle (x y z : RingAddress) :
    x.separation z ≤ x.separation y + y.separation z := by
  have way : x.distanceTo y + y.distanceTo z ≡ z.value - x.value [ZMOD 2 ^ 160] := by
    have h := (distanceTo_modEq x y).add (distanceTo_modEq y z)
    rwa [add_comm (y.value - x.value : Int), sub_add_sub_cancel] at h
  exact (separation_le_natAbs way).trans (Int.natAbs_add_le _ _)

theorem separation_eq_min_right :
    x.separation y = min (x.leftDistanceTo y) (x.rightDistanceTo y) := by
  have hself : x.leftDistanceTo x = 0 := by
    rw [leftDistanceTo, BitVec.sub_self]
    rfl
  have hlt := leftDistanceTo_lt x y
  rw [separation_eq_min, rightDistanceTo_eq, leftDistanceTo_eq x y x, hself]
  split <;> omega

/-! The sides. -/

theorem isLeftOf_eq : x.isLeftOf y = decide (0 < y.distanceTo x) := rfl

theorem isRightOf_eq : x.isRightOf y = decide (y.distanceTo x < 0) := rfl

theorem left_xor_right_iff : Xor (x.isLeftOf y = true) (x.isRightOf y = true) ↔ x ≠ y := by
  have hne : x ≠ y ↔ y.distanceTo x ≠ 0 := ne_comm.trans distanceTo_eq_zero_iff.not.symm
  rw [isLeftOf_eq, isRightOf_eq, decide_eq_true_eq, decide_eq_true_eq, hne, Xor]
  omega

theorem isLeftOf_eq_isRightOf_iff : x.isLeftOf y = y.isRightOf x ↔ ¬Antipodes x y := by
  rw [isLeftOf_eq, isRightOf_eq, decide_eq_decide]
  constructor
  · intro h hxy
    rw [antipodes_iff.mp hxy, antipodes_iff.mp (antipodes_comm.mp hxy)] at h
    norm_num at h
  · intro hxy
    rw [distanceTo_comm_iff.mpr hxy]
    omega

theorem antipodes_iff_right : Antipodes x y ↔ x.isRightOf y = true ∧ y.isRightOf x = true := by
  rw [isRightOf_eq, isRightOf_eq, decide_eq_true_eq, decide_eq_true_eq]
  constructor
  · intro h
    rw [antipodes_iff.mp h, antipodes_iff.mp (antipodes_comm.mp h)]
    norm_num
  · intro h
    by_contra hxy
    have opposite := distanceTo_comm_iff.mpr hxy
    omega

/-- The distance is the one number of the range that leads from a position to another one. It is opposite
in the two directions, except between antipodes, where both count as half a turn back. Its size is that
of the shorter way round, which is a metric of at most half a turn. Of two positions each lies on one
side of the other, on opposite sides unless they are antipodes; of these each lies right of the other. -/
theorem distance_laws (x y z : RingAddress) :
    (∀ d : Int, x.distanceTo y = d ↔
      -2 ^ 159 ≤ d ∧ d < 2 ^ 159 ∧ d ≡ y.value - x.value [ZMOD 2 ^ 160]) ∧
    ((x.distanceTo y = -y.distanceTo x ↔ ¬Antipodes x y) ∧
      (Antipodes x y ↔ x.distanceTo y = -2 ^ 159 ∧ y.distanceTo x = -2 ^ 159)) ∧
    (x.separation y = min (x.leftDistanceTo y) (x.rightDistanceTo y) ∧
      x.separation y = y.separation x ∧ (x.separation y = 0 ↔ x = y) ∧
      x.separation y ≤ 2 ^ 159 ∧ x.separation z ≤ x.separation y + y.separation z) ∧
    ((Xor (x.isLeftOf y = true) (x.isRightOf y = true) ↔ x ≠ y) ∧
      x.isLeftOf x = false ∧ x.isRightOf x = false) ∧
    (x.isLeftOf y = y.isRightOf x ↔ ¬Antipodes x y) ∧
    (Antipodes x y ↔ x.isRightOf y = true ∧ y.isRightOf x = true) := by
  have hself : x.distanceTo x = 0 := distanceTo_eq_zero_iff.mpr rfl
  refine ⟨fun d => distanceTo_eq_iff, ⟨distanceTo_comm_iff, ?_⟩,
    ⟨separation_eq_min_right, separation_comm x y, separation_eq_zero_iff, separation_le x y,
      separation_triangle x y z⟩,
    ⟨left_xor_right_iff, ?_, ?_⟩, isLeftOf_eq_isRightOf_iff, antipodes_iff_right⟩
  · rw [← antipodes_iff, ← antipodes_iff, ← antipodes_comm, and_self]
  · rw [isLeftOf_eq, hself]
    rfl
  · rw [isRightOf_eq, hself]
    rfl

example : (floor 0).distanceTo (floor (1 <<< 159)) = -2 ^ 159 := by decide

end

end RingOverlay.RingAddress
