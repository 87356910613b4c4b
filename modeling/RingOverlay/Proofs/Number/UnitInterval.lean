import Mathlib.Algebra.Order.Field.Power
import Mathlib.Data.Rat.Cast.Order
import Mathlib.Tactic.Linarith
import Mathlib.Tactic.NormNum
import Mathlib.Tactic.Positivity
import RingOverlay.Number.Float
/-!
The numbers that floats stand for, and which of them lie between zero and one.
-/

set_option autoImplicit false
set_option relaxedAutoImplicit false

namespace RingOverlay.Single

variable {x : Single}

def toRat? (x : Single) : Option ℚ :=
  match x.magnitude with
  | .finite m e _ => some ((if x.negative then -1 else 1) * (m * 2 ^ e))
  | .nan | .infinite => none

def InUnitInterval (x : Single) : Prop := ∃ q, x.toRat? = some q ∧ 0 ≤ q ∧ q ≤ 1

theorem inUnit_iff_low : x.inUnit = true ↔
    x.low = 0 ∨ x.negative = false ∧ x.low ≤ 127 * 2 ^ 23 := by
  have zero_low : zero.low = 0 := by decide
  have one_low : one.low = 127 * 2 ^ 23 := by decide
  have zero_sign : zero.negative = false := by decide
  have one_sign : one.negative = false := by decide
  simp only [inUnit, le, isNaN, rank, zero_low, one_low, zero_sign, one_sign, Bool.and_eq_true,
    Bool.not_eq_true', decide_eq_true_eq, decide_eq_false_iff_not]
  cases x.negative <;> simp <;> omega

theorem magnitude_eq (x : Single) : x.magnitude =
    if x.low / 2 ^ 23 = 255 then if x.low % 2 ^ 23 = 0 then .infinite else .nan
    else if x.low / 2 ^ 23 = 0 then .finite (x.low % 2 ^ 23) (-149) false
    else .finite (2 ^ 23 + x.low % 2 ^ 23) (-149 + (x.low / 2 ^ 23 : Nat) - 1)
      (x.low % 2 ^ 23 == 0 && decide (x.low / 2 ^ 23 > 1)) := by
  simp only [magnitude, FloatMagnitude.ofBits, Nat.shiftRight_eq_div_pow, Nat.one_shiftLeft]

theorem scaled_le_one_iff (m : Nat) (e : Int) : (m : ℚ) * 2 ^ e ≤ 1 ↔ (m : ℚ) ≤ 2 ^ (-e) := by
  rw [zpow_neg, ← one_div, le_div_iff₀ (by positivity)]

theorem signed_mem_iff {negative : Bool} {size : ℚ} (nonneg : 0 ≤ size) :
    (0 ≤ (if negative then -1 else 1) * size ∧ (if negative then -1 else 1) * size ≤ 1) ↔
      size = 0 ∨ negative = false ∧ size ≤ 1 := by
  cases negative with
  | false =>
    simp only [Bool.false_eq_true, if_false, one_mul, true_and]
    constructor
    · rintro ⟨-, small⟩
      exact Or.inr small
    · rintro (rfl | small)
      · norm_num
      · exact ⟨nonneg, small⟩
  | true =>
    simp only [if_true, Bool.true_eq_false, false_and, or_false]
    constructor
    · rintro ⟨low, -⟩
      linarith
    · rintro rfl
      norm_num

theorem normal_le_iff {field rest : Nat} (fraction : rest < 2 ^ 23) :
    ((2 ^ 23 + rest : Nat) : ℚ) ≤ 2 ^ (-(-149 + (field : Int) - 1)) ↔
      2 ^ 23 * field + rest ≤ 127 * 2 ^ 23 := by
  have mantissa : ((2 ^ 23 + rest : Nat) : ℚ) < 2 ^ (24 : Int) := by
    have below : 2 ^ 23 + rest < 2 ^ 24 := by omega
    exact_mod_cast below
  have leading : (2 : ℚ) ^ (23 : Int) ≤ ((2 ^ 23 + rest : Nat) : ℚ) := by
    exact_mod_cast Nat.le_add_right (2 ^ 23) rest
  rcases Nat.lt_trichotomy field 127 with less | one | more
  · have room : (2 : ℚ) ^ (24 : Int) ≤ 2 ^ (-(-149 + (field : Int) - 1)) :=
      zpow_le_zpow_right₀ (by norm_num) (by omega)
    exact iff_of_true (mantissa.le.trans room) (by omega)
  · have exact : (2 : ℚ) ^ (-(-149 + (field : Int) - 1)) = ((2 ^ 23 : Nat) : ℚ) := by
      rw [one]
      norm_num
    rw [exact, Nat.cast_le]
    omega
  · have room : (2 : ℚ) ^ (-(-149 + (field : Int) - 1)) ≤ 2 ^ (22 : Int) :=
      zpow_le_zpow_right₀ (by norm_num) (by omega)
    have small : (2 : ℚ) ^ (22 : Int) < 2 ^ (23 : Int) := by norm_num
    refine iff_of_false (not_le.mpr ?_) (by omega)
    exact room.trans_lt (small.trans_le leading)

theorem inUnit_iff : x.inUnit = true ↔ x.InUnitInterval := by
  rw [inUnit_iff_low, InUnitInterval, toRat?, magnitude_eq]
  have split : x.low = 2 ^ 23 * (x.low / 2 ^ 23) + x.low % 2 ^ 23 := (Nat.div_add_mod ..).symm
  have fraction : x.low % 2 ^ 23 < 2 ^ 23 := Nat.mod_lt _ (by decide)
  generalize x.low / 2 ^ 23 = field at *
  generalize x.low % 2 ^ 23 = rest at *
  by_cases special : field = 255
  · have none_there : ∀ q : ℚ, ¬ (match
        (if rest = 0 then FloatMagnitude.infinite else .nan : FloatMagnitude) with
        | .finite m e _ => some ((if x.negative then (-1 : ℚ) else 1) * (m * 2 ^ e))
        | .nan | .infinite => none) = some q := by
      intro q
      split_ifs <;> simp
    rw [if_pos special]
    constructor
    · omega
    · rintro ⟨q, found, -⟩
      exact absurd found (none_there q)
  · rw [if_neg special]
    by_cases subnormal : field = 0
    · rw [if_pos subnormal]
      simp only [Option.some.injEq, exists_eq_left']
      rw [signed_mem_iff (by positivity), scaled_le_one_iff]
      have zero : (rest : ℚ) * 2 ^ (-149 : Int) = 0 ↔ x.low = 0 := by
        rw [split, subnormal]
        simp
      have small : (rest : ℚ) ≤ 2 ^ (-(-149) : Int) ↔ x.low ≤ 127 * 2 ^ 23 := by
        have room : (rest : ℚ) ≤ ((2 ^ 149 : Nat) : ℚ) := by
          rw [Nat.cast_le]
          exact fraction.le.trans (Nat.pow_le_pow_right (by decide) (by decide))
        have unfolded : (2 : ℚ) ^ (-(-149) : Int) = ((2 ^ 149 : Nat) : ℚ) := by norm_num
        rw [unfolded]
        exact iff_of_true room (by omega)
      rw [zero, small]
    · rw [if_neg subnormal]
      simp only [Option.some.injEq, exists_eq_left']
      rw [signed_mem_iff (by positivity), scaled_le_one_iff, normal_le_iff fraction, ← split]
      have zero : ((2 ^ 23 + rest : Nat) : ℚ) * 2 ^ (-149 + (field : Int) - 1) = 0 ↔ x.low = 0 := by
        refine iff_of_false (ne_of_gt (by positivity)) (by omega)
      rw [zero]

/-! What clamping to the unit interval does. -/

theorem inUnit_of_isNaN (nan : x.isNaN = true) : x.inUnit = false := by
  simp [inUnit, le, nan]

theorem isNaN_of_inUnit (unit : x.inUnit = true) : x.isNaN = false := by
  cases nan : x.isNaN with
  | false => rfl
  | true =>
    rw [inUnit_of_isNaN nan] at unit
    cases unit

theorem clampUnit_of_isNaN (nan : x.isNaN = true) : x.clampUnit = x := by
  simp [clampUnit, lt, nan]

theorem clampUnit_of_inUnit (unit : x.inUnit = true) : x.clampUnit = x := by
  simp only [inUnit, le, Bool.and_eq_true, decide_eq_true_eq] at unit
  have above : x.lt zero = false := by simp [lt, unit.1.2]
  have below : one.lt x = false := by simp [lt, unit.2.2]
  simp [clampUnit, above, below]

theorem clampUnit_of_not_inUnit (number : x.isNaN = false) (outside : x.inUnit = false) :
    x.clampUnit = if x.negative then zero else one := by
  have zero_rank : zero.rank = 0 := by decide
  have one_rank : one.rank = 127 * 2 ^ 23 := by decide
  have far : ¬ (x.low = 0 ∨ x.negative = false ∧ x.low ≤ 127 * 2 ^ 23) := by
    rw [← inUnit_iff_low, outside]
    exact Bool.false_ne_true
  have ends : zero.isNaN = false ∧ one.isNaN = false := by decide
  cases sign : x.negative with
  | true =>
    have below : x.rank < zero.rank := by
      rw [rank, if_pos sign, zero_rank]
      omega
    have less : x.lt zero = true := by simp [lt, number, ends, below]
    rw [clampUnit, if_pos less, if_pos rfl]
  | false =>
    simp only [sign, true_and, not_or, Nat.not_le] at far
    have rank : x.rank = x.low := if_neg (by simp [sign])
    have above : one.rank < x.rank := by
      rw [rank, one_rank]
      exact_mod_cast far.2
    have more : one.lt x = true := by simp [lt, number, ends, above]
    have not_less : ¬ x.lt zero = true := by
      rw [one_rank] at above
      simp only [lt, zero_rank, Bool.and_eq_true, decide_eq_true_eq]
      omega
    rw [clampUnit, if_neg not_less, if_pos more]
    rfl

theorem inUnitInterval_clampUnit (number : x.isNaN = false) : x.clampUnit.InUnitInterval := by
  rw [← inUnit_iff]
  cases unit : x.inUnit with
  | true => rw [clampUnit_of_inUnit unit, unit]
  | false =>
    rw [clampUnit_of_not_inUnit number unit]
    cases x.negative <;> decide

end RingOverlay.Single
