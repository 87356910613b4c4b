import Mathlib.Logic.Basic
import RingOverlay.Proofs.Address.Circle
/-!
Betweenness on the circle. A position lies between two others on a walk to the left if the three numbers
ascend, but for one place at which the walk may wrap. This does not depend on which of the three the
walk begins at, and so betweenness is a strict cyclic order.
-/

set_option autoImplicit false
set_option relaxedAutoImplicit false

namespace RingOverlay.RingAddress

variable {a b c x : RingAddress}

theorem value_ne_iff : a.value ≠ b.value ↔ a ≠ b := not_congr ⟨value_injective, congrArg value⟩

theorem isBetweenFromLeft_iff : x.isBetweenFromLeft a b = true ↔
    a.value < x.value ∧ x.value < b.value ∨ x.value < b.value ∧ b.value < a.value ∨
      b.value < a.value ∧ a.value < x.value := by
  have ha := a.value_lt
  have hb := b.value_lt
  have hx := x.value_lt
  simp only [isBetweenFromLeft, leftDistanceTo_eq_value, Bool.and_eq_true, bne_iff_ne, ne_eq,
    decide_eq_true_eq]
  norm_num at *
  split <;> split <;> omega

theorem isBetweenFromRight_eq (x a b : RingAddress) :
    x.isBetweenFromRight a b = x.isBetweenFromLeft b a := by
  have ha := a.value_lt
  have hb := b.value_lt
  have hx := x.value_lt
  rw [Bool.eq_iff_iff, isBetweenFromLeft_iff]
  simp only [isBetweenFromRight, rightDistanceTo_eq, leftDistanceTo_eq_value, Bool.and_eq_true,
    bne_iff_ne, ne_eq, decide_eq_true_eq]
  norm_num at *
  split <;> split <;> omega

theorem isBetweenFromLeft_rotate (a x b : RingAddress) :
    x.isBetweenFromLeft a b = b.isBetweenFromLeft x a := by
  rw [Bool.eq_iff_iff, isBetweenFromLeft_iff, isBetweenFromLeft_iff]
  omega

theorem isBetweenFromLeft_asymm (h : x.isBetweenFromLeft a b = true) :
    x.isBetweenFromLeft b a = false := by
  rw [isBetweenFromLeft_iff] at h
  rw [← Bool.not_eq_true, isBetweenFromLeft_iff]
  omega

theorem isBetweenFromLeft_xor_iff :
    Xor (x.isBetweenFromLeft a b = true) (x.isBetweenFromLeft b a = true) ↔
      a ≠ x ∧ x ≠ b ∧ a ≠ b := by
  rw [← value_ne_iff, ← value_ne_iff, ← value_ne_iff, isBetweenFromLeft_iff, isBetweenFromLeft_iff,
    Xor]
  omega

theorem isBetweenFromLeft_trans (hx : x.isBetweenFromLeft a b = true)
    (hb : b.isBetweenFromLeft a c = true) : x.isBetweenFromLeft a c = true := by
  rw [isBetweenFromLeft_iff] at *
  omega

theorem isBetweenFromLeft_of_eq (h : a = x ∨ x = b ∨ a = b) : x.isBetweenFromLeft a b = false := by
  rw [← Bool.not_eq_true, isBetweenFromLeft_iff]
  rcases h with rfl | rfl | rfl <;> omega

/-- Betweenness is a strict cyclic order: it may be rotated and not reversed, it holds in one direction
for distinct positions and in none if two are equal, and it is transitive for walks from one position. -/
theorem betweenness_cyclic (a x b c : RingAddress) :
    (x.isBetweenFromLeft a b = true →
      b.isBetweenFromLeft x a = true ∧ x.isBetweenFromLeft b a = false) ∧
    (Xor (x.isBetweenFromLeft a b = true) (x.isBetweenFromLeft b a = true) ↔
      a ≠ x ∧ x ≠ b ∧ a ≠ b) ∧
    (x.isBetweenFromLeft a b = true → b.isBetweenFromLeft a c = true →
      x.isBetweenFromLeft a c = true) ∧
    (a = x ∨ x = b ∨ a = b → x.isBetweenFromLeft a b = false) ∧
    x.isBetweenFromRight a b = x.isBetweenFromLeft b a := by
  refine ⟨fun h => ⟨?_, isBetweenFromLeft_asymm h⟩, isBetweenFromLeft_xor_iff,
    isBetweenFromLeft_trans, isBetweenFromLeft_of_eq, isBetweenFromRight_eq x a b⟩
  rw [← isBetweenFromLeft_rotate]
  exact h

theorem betweenness_cyclic_wrap :
    (floor 0).isBetweenFromLeft (floor (-2)) (floor 4) = true ∧
    (floor 4).isBetweenFromLeft (floor (-2)) (floor 8) = true ∧
    (floor 4).isBetweenFromLeft (floor 0) (floor (-2)) = true ∧
    (floor 0).isBetweenFromLeft (floor 4) (floor (-2)) = false ∧
    (floor 0).isBetweenFromLeft (floor (-2)) (floor 8) = true ∧
    (floor 0).isBetweenFromLeft (floor 4) (floor 4) = false := by
  obtain ⟨turned, -, further, -⟩ := betweenness_cyclic (floor (-2)) (floor 0) (floor 4) (floor 8)
  obtain ⟨-, -, -, equal, -⟩ := betweenness_cyclic (floor 4) (floor 0) (floor 4) (floor 8)
  have first : (floor 0).isBetweenFromLeft (floor (-2)) (floor 4) = true := by decide
  have second : (floor 4).isBetweenFromLeft (floor (-2)) (floor 8) = true := by decide
  exact ⟨first, second, (turned first).1, (turned first).2, further first second,
    equal (Or.inr (Or.inr rfl))⟩

end RingOverlay.RingAddress
