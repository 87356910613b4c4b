import RingOverlay.Proofs.Address.Tag
/-!
The forms of addresses, one by one: which bits are read as each form, and what they stand for.
-/

set_option autoImplicit false
set_option relaxedAutoImplicit false

namespace RingOverlay

namespace RingAddress

theorem classOf_bits (a : RingAddress) : a.bits.classOf = AddressClass.ring.tag :=
  AddressBits.classOf_eq_iff.mpr ⟨fun i below => absurd below (Nat.not_lt_zero i), a.even⟩

theorem ofBytes_toBytes_iff {b : AddressBits} {a : RingAddress} :
    RingAddress.ofBytes b.toBytes = .ok a ↔ b = a.bits := by
  rw [RingAddress.ofBytes, AddressBits.readClass_toBytes]
  by_cases tagged : b.classOf = AddressClass.ring.tag
  · have even : b.getLsbD 0 = false := (AddressBits.classOf_eq_iff.mp tagged).2
    rw [if_pos tagged]
    simp only [bind, Except.bind, ofBits?, dif_pos even]
    constructor
    · intro found
      cases found
      rfl
    · rintro rfl
      rfl
  · rw [if_neg tagged]
    constructor
    · intro found
      cases found
    · rintro rfl
      exact absurd a.classOf_bits tagged

end RingAddress

namespace Bearing

theorem ofBits_eq_ok_iff {n : BitVec 32} {d : Bearing} : ofBits n = .ok d ↔ n = d.toBits := by
  unfold ofBits
  split
  · rename_i zero
    cases d <;> simp [toBits, zero]
  · rename_i not_zero
    split
    · rename_i one
      cases d <;> simp [toBits, one]
    · rename_i not_one
      refine iff_of_false (fun found => ?_) fun same => ?_
      · cases found
      · cases d
        · exact not_zero same
        · exact not_one same

theorem ofBytes_toBytes_iff_fields {b : AddressBits} {d : Bearing} :
    Bearing.ofBytes b.toBytes = .ok d ↔
      b.classOf = AddressClass.directional.tag ∧ b.leading = d.toBits := by
  rw [Bearing.ofBytes, AddressBits.readClass_toBytes]
  by_cases tagged : b.classOf = AddressClass.directional.tag
  · rw [if_pos tagged]
    change ofBits b.leading = .ok d ↔ _
    rw [ofBits_eq_ok_iff]
    simp [tagged]
  · rw [if_neg tagged]
    refine iff_of_false (fun found => ?_) fun h => tagged h.1
    cases found

theorem ofBytes_toBytes_iff {b : AddressBits} {d : Bearing} :
    Bearing.ofBytes b.toBytes = .ok d ↔ b &&& ~~~AddressBits.spare = d.toAddressBits := by
  have written : d.toAddressBits.classOf = 124 := AddressBits.classOf_ofLeading _ (by decide)
  have number : d.toAddressBits.leading = d.toBits := AddressBits.leading_ofLeading _ (by decide)
  rw [ofBytes_toBytes_iff_fields]
  constructor
  · rintro ⟨tagged, leading⟩
    have kept := (AddressBits.classOf_clear_spare_iff b).mpr tagged
    apply AddressBits.eq_of_fields
    · rw [kept, written]
    · intro i low above
      rw [kept] at above
      have spare : 125 ≤ i ∧ i ≤ 127 := by omega
      rw [AddressBits.getLsbD_clear_spare, toAddressBits,
        AddressBits.getLsbD_ofLeading_between _ above low]
      simp [spare]
    · rw [AddressBits.leading_clear_spare, leading, number]
  · intro same
    constructor
    · exact (AddressBits.classOf_clear_spare_iff b).mp (same ▸ written)
    · rw [← AddressBits.leading_clear_spare, same, number]

end Bearing

namespace FloodAddress

theorem getLsbD_toAddressBits (a : FloodAddress) (i : Nat) : a.toAddressBits.getLsbD i =
    ((AddressBits.ofLeading a.probability.bits .flood).getLsbD i ||
      (a.firstHop && decide (i = flagBit))) := by
  have flag : ((1 <<< flagBit : Nat) : AddressBits).getLsbD i = decide (i = flagBit) := by
    rw [Nat.one_shiftLeft, BitVec.natCast_eq_ofNat, BitVec.getLsbD_ofNat, Nat.testBit_two_pow,
      Bool.eq_iff_iff]
    simp only [Bool.and_eq_true, decide_eq_true_eq]
    unfold flagBit
    omega
  unfold toAddressBits
  cases a.firstHop
  · simp
  · rw [if_pos rfl, BitVec.getLsbD_or, flag, Bool.true_and]

theorem classOf_toAddressBits (a : FloodAddress) :
    a.toAddressBits.classOf = AddressClass.flood.tag := by
  have tag := AddressBits.classOf_eq_iff.mp
    (AddressBits.classOf_ofLeading a.probability.bits (c := .flood) (by decide))
  apply AddressBits.classOf_eq_iff.mpr
  constructor
  · intro i below
    rw [getLsbD_toAddressBits, tag.1 i below, Bool.true_or]
  · rw [getLsbD_toAddressBits, tag.2]
    simp [flagBit, AddressClass.tag]

theorem leading_toAddressBits (a : FloodAddress) : a.toAddressBits.leading = a.probability.bits := by
  rw [← AddressBits.leading_ofLeading a.probability.bits (c := .flood) (by decide)]
  apply BitVec.eq_of_getLsbD_eq
  intro i inside
  have not_flag : 128 + i ≠ flagBit := by
    unfold flagBit
    omega
  rw [AddressBits.getLsbD_leading, AddressBits.getLsbD_leading, getLsbD_toAddressBits]
  simp [not_flag]

theorem getLsbD_flagBit (a : FloodAddress) : a.toAddressBits.getLsbD flagBit = a.firstHop := by
  rw [getLsbD_toAddressBits, AddressBits.getLsbD_ofLeading_between _ (by decide) (by decide)]
  simp

theorem toAddressBits_fields {b : AddressBits} (tagged : b.classOf = AddressClass.flood.tag) :
    toAddressBits ⟨b.getLsbD flagBit, ⟨b.leading⟩⟩ = b := by
  apply AddressBits.eq_of_fields
  · rw [tagged, classOf_toAddressBits]
  · intro i low above
    have flag : i = flagBit := by
      rw [classOf_toAddressBits] at above
      unfold flagBit
      change 126 < i at above
      omega
    rw [flag, getLsbD_flagBit]
  · rw [leading_toAddressBits]

theorem ofBytes_toBytes_iff {b : AddressBits} {a : FloodAddress} :
    FloodAddress.ofBytes b.toBytes = .ok a ↔ a.probability.inUnit = true ∧ b = a.toAddressBits := by
  rw [FloodAddress.ofBytes, AddressBits.readClass_toBytes]
  by_cases tagged : b.classOf = AddressClass.flood.tag
  · rw [if_pos tagged]
    change (if Single.inUnit ⟨b.leading⟩ = true then Except.ok _ else _) = _ ↔ _
    constructor
    · intro found
      split at found
      · rename_i unit
        cases found
        exact ⟨unit, (toAddressBits_fields tagged).symm⟩
      · cases found
    · rintro ⟨unit, rfl⟩
      rw [leading_toAddressBits, getLsbD_flagBit, if_pos unit]
  · rw [if_neg tagged]
    refine iff_of_false (fun found => ?_) ?_
    · cases found
    · rintro ⟨-, rfl⟩
      exact tagged a.classOf_toAddressBits

end FloodAddress

namespace Address

theorem classOf_randomWalk :
    (randomWalk).toAddressBits.classOf = AddressClass.randomWalk.tag := by
  apply AddressBits.classOf_eq_iff.mpr
  constructor
  · intro i below
    have inside : i < 160 := Nat.lt_trans below (by decide)
    rw [toAddressBits, AddressBits.getLsbD_setClass]
    simp [inside, below]
  · rw [toAddressBits, AddressBits.getLsbD_setClass]
    simp

theorem eq_randomWalk_iff {b : AddressBits} :
    b = (randomWalk).toAddressBits ↔ b.classOf = AddressClass.randomWalk.tag := by
  constructor
  · rintro rfl
    exact classOf_randomWalk
  · intro tagged
    refine AddressBits.eq_of_above (tagged.trans classOf_randomWalk.symm) fun i inside past => ?_
    rw [tagged] at past
    change 159 < i at past
    omega

theorem readRandomWalk_toBytes_iff {b : AddressBits} :
    readRandomWalk b.toBytes = .ok () ↔ b = (randomWalk).toAddressBits := by
  rw [eq_randomWalk_iff, readRandomWalk, AddressBits.readClass_toBytes]
  by_cases tagged : b.classOf = AddressClass.randomWalk.tag
  · rw [if_pos tagged]
    exact iff_of_true rfl tagged
  · rw [if_neg tagged]
    refine iff_of_false (fun found => ?_) tagged
    cases found

end Address

end RingOverlay
