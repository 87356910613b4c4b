import RingOverlay.Overlord.Unstructured
/-!
How the desired number of unstructured links follows the largest number of links there has been: it
never falls behind that number, and is ahead of it by a chance increment at most.
-/

set_option autoImplicit false
set_option relaxedAutoImplicit false

namespace RingOverlay

theorem Double.exceeds_of_low {x : Double} (zero : x.low = 0) (n : Nat) : x.exceeds n = false := by
  have magnitude : x.magnitude = .finite 0 (-1074) false := by
    rw [Double.magnitude, zero]
    rfl
  simp [Double.exceeds, magnitude]

/-- A desired number of links where `initial` of them were desired at first and `peak` is the largest
number there has been. -/
structure Ratcheted (cfg : UnstructuredConfig) (initial peak desired : Nat) : Prop where
  least : max initial peak ≤ desired
  most : desired ≤ max initial (peak + 1)
  exact : cfg.extraGrowthProbability.low = 0 → desired = max initial peak

namespace UnstructuredOverlord

variable {cfg : UnstructuredConfig} {o : UnstructuredOverlord} {initial peak count : Nat} {ws : Words}

theorem grow_cases (cfg : UnstructuredConfig) (desired : Nat) (ws : Words) :
    (grow desired cfg ws).1 = desired + 1 ∨
      (grow desired cfg ws).1 = desired + 2 ∧ cfg.extraGrowthProbability.low ≠ 0 := by
  simp only [grow]
  split
  · rename_i extra
    refine Or.inr ⟨rfl, fun zero => ?_⟩
    rw [Double.exceeds_of_low zero] at extra
    cases extra
  · exact Or.inl rfl

theorem desired_linkUp (o : UnstructuredOverlord) (cfg : UnstructuredConfig) (count : Nat)
    (ws : Words) : (o.linkUp cfg count ws).1.desired =
      if o.current < count ∧ o.current = o.desired then (grow o.desired cfg ws).1 else o.desired := by
  unfold linkUp
  by_cases rise : o.current < count ∧ o.current = o.desired
  · rw [if_pos rise, if_pos (by simpa using rise)]
  · rw [if_neg rise, if_neg (by simpa using rise)]

theorem desired_linkUp_bounds (o : UnstructuredOverlord) (cfg : UnstructuredConfig) (count : Nat)
    (ws : Words) : o.desired ≤ (o.linkUp cfg count ws).1.desired ∧
      (o.linkUp cfg count ws).1.desired ≤ max o.desired (count + 1) := by
  have grown := grow_cases cfg o.desired ws
  rw [desired_linkUp]
  split <;> omega

theorem le_desired_linkUp (within : o.current ≤ o.desired) (near : count ≤ o.current + 1)
    (cfg : UnstructuredConfig) (ws : Words) : count ≤ (o.linkUp cfg count ws).1.desired := by
  have grown := grow_cases cfg o.desired ws
  rw [desired_linkUp]
  split <;> omega

theorem ratcheted_linkUp (counted : o.current = count) (within : count ≤ peak)
    (ratcheted : Ratcheted cfg initial peak o.desired) (ws : Words) :
    Ratcheted cfg initial (max peak (count + 1)) (o.linkUp cfg (count + 1) ws).1.desired := by
  obtain ⟨least, most, exact⟩ := ratcheted
  have grown := grow_cases cfg o.desired ws
  rw [desired_linkUp, counted]
  by_cases reached : count = o.desired
  · rw [if_pos ⟨Nat.lt_succ_self count, reached⟩]
    refine ⟨by omega, by omega, fun zero => ?_⟩
    have followed := exact zero
    omega
  · rw [if_neg fun rise => reached rise.2]
    refine ⟨by omega, by omega, fun zero => ?_⟩
    have followed := exact zero
    omega

end UnstructuredOverlord

end RingOverlay
