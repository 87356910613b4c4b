import RingOverlay.Address.Tagging
import RingOverlay.Proofs.Address.Tag
/-!
Class tags read back what was written. Counting a tag byte by byte and writing it bit by bit come to
the same as the run of ones in the whole number and the masks that change it.
-/

set_option autoImplicit false
set_option relaxedAutoImplicit false

namespace RingOverlay

open BigEndian

namespace Tagging

variable {bs : Bytes} {b : UInt8} {i k n : Nat}

theorem onesInByte_eq_iff : onesInByte b = n ↔
    (∀ i < n, b.toNat.testBit i = true) ∧ b.toNat.testBit n = false :=
  length_takeWhile_range_eq_iff (Nat.testBit_lt_two_pow b.toNat_lt)

theorem onesInByte_le (b : UInt8) : onesInByte b ≤ 8 :=
  (List.takeWhile_sublist _).length_le.trans (Nat.le_of_eq List.length_range)

theorem bit_append_singleton (bs : Bytes) (b : UInt8) (i : Nat) :
    bit (bs ++ [b]) i = if i < 8 then b.toNat.testBit i else bit bs (i - 8) := by
  have digit : b.toNat < 2 ^ 8 := b.toNat_lt
  rw [← testBit_value, value_append_singleton, show 256 = 2 ^ 8 from rfl,
    Nat.testBit_two_pow_mul_add _ digit, testBit_value]

theorem count_append_singleton (bs : Bytes) (b : UInt8) : count (bs ++ [b]) =
    if onesInByte b < 8 then onesInByte b else onesInByte b + count bs := by
  rw [count, List.reverse_append]
  rfl

theorem endsInOnes_count (bs : Bytes) : EndsInOnes bs (count bs) := by
  induction bs using List.reverseRecOn with
  | nil => exact ⟨fun i below => absurd below (Nat.not_lt_zero i), rfl⟩
  | append_singleton bs b ih =>
    obtain ⟨ones, zero⟩ := onesInByte_eq_iff.mp (rfl : onesInByte b = _)
    rw [count_append_singleton]
    split
    case isTrue short =>
      -- The byte holds a zero, so that the run ends within it.
      refine ⟨fun i below => ?_, ?_⟩
      · rw [bit_append_singleton, if_pos (below.trans short)]
        exact ones i below
      · rw [bit_append_singleton, if_pos short]
        exact zero
    case isFalse long =>
      have full : onesInByte b = 8 := Nat.le_antisymm (onesInByte_le b) (Nat.not_lt.mp long)
      rw [full] at ones ⊢
      refine ⟨fun i below => ?_, ?_⟩
      · rw [bit_append_singleton]
        split
        case isTrue low => exact ones i low
        case isFalse high => exact ih.1 (i - 8) (by omega)
      · rw [bit_append_singleton, if_neg (by omega), Nat.add_sub_cancel_left]
        exact ih.2

theorem bit_of_outside (outside : 8 * bs.length ≤ i) : bit bs i = false := by
  have none_there : bs.reverse[i / 8]? = none := by
    rw [List.getElem?_eq_none_iff, List.length_reverse]
    omega
  rw [bit, List.getD_eq_getElem?_getD, none_there, Option.getD_none]
  exact Nat.zero_testBit _

theorem testBit_bitInByte : ∀ r < 8, ∀ m < 8, (bitInByte r).toNat.testBit m = decide (m = r) := by
  decide

theorem testBit_not_bitInByte :
    ∀ r < 8, ∀ m < 8, (~~~bitInByte r).toNat.testBit m = !decide (m = r) := by
  decide

theorem bitInByte_mod (k : Nat) : bitInByte (k % 8) = bitInByte k := by
  rw [bitInByte, bitInByte, Nat.mod_mod]

theorem bit_modify {f : UInt8 → UInt8} {g : Bool → Bool → Bool} (inside : k < 8 * bs.length)
    (acts : ∀ b, ∀ m < 8, (f b).toNat.testBit m = g (decide (m = k % 8)) (b.toNat.testBit m))
    (idle : ∀ x, g false x = x) (i : Nat) :
    bit (bs.modify (byteOf bs k) f) i = g (decide (i = k)) (bit bs i) := by
  have place : byteOf bs k < bs.length := by
    unfold byteOf
    omega
  have back : bs.length - 1 - byteOf bs k = k / 8 := by
    unfold byteOf
    omega
  by_cases here : i / 8 = k / 8
  · have same : (i % 8 = k % 8) = (i = k) := by
      apply propext
      omega
    have changed : byteOf bs k < (bs.modify (byteOf bs k) f).length := by
      rw [List.length_modify]
      exact place
    rw [bit_of_byte changed (by rw [List.length_modify, back]; exact here), List.getElem_modify_eq,
      acts _ _ (Nat.mod_lt i (by decide)), bit_of_byte place (by rw [back]; exact here)]
    simp only [same]
  · have ne : i ≠ k := fun same => here (by rw [same])
    rw [bit_modify_of_ne f place (by rw [back]; exact here), decide_eq_false ne, idle]

theorem bit_setBit (inside : k < 8 * bs.length) (i : Nat) :
    bit (setBit bs k) i = (decide (i = k) || bit bs i) := by
  refine bit_modify (g := fun hit x => hit || x) inside (fun b m low => ?_) Bool.false_or i
  rw [UInt8.toNat_or, Nat.testBit_or, ← bitInByte_mod,
    testBit_bitInByte (k % 8) (Nat.mod_lt k (by decide)) m low, Bool.or_comm]

theorem bit_clearBit (inside : k < 8 * bs.length) (i : Nat) :
    bit (clearBit bs k) i = (!decide (i = k) && bit bs i) := by
  refine bit_modify (g := fun hit x => !hit && x) inside (fun b m low => ?_) Bool.true_and i
  rw [UInt8.toNat_and, Nat.testBit_and, ← bitInByte_mod,
    testBit_not_bitInByte (k % 8) (Nat.mod_lt k (by decide)) m low, Bool.and_comm]

@[simp] theorem length_setBit (bs : Bytes) (k : Nat) : (setBit bs k).length = bs.length :=
  List.length_modify ..

@[simp] theorem length_clearBit (bs : Bytes) (k : Nat) : (clearBit bs k).length = bs.length :=
  List.length_modify ..

@[simp] theorem length_foldl_setBit (bs : Bytes) (ks : List Nat) :
    (ks.foldl setBit bs).length = bs.length := by
  induction ks generalizing bs with
  | nil => rfl
  | cons k ks ih => rw [List.foldl_cons, ih, length_setBit]

theorem bit_foldl_setBit (inside : n ≤ 8 * bs.length) (i : Nat) :
    bit ((List.range n).foldl setBit bs) i = (decide (i < n) || bit bs i) := by
  induction n with
  | zero => simp
  | succ n ih =>
    have room : n < 8 * ((List.range n).foldl setBit bs).length := by
      rw [length_foldl_setBit]
      omega
    have below : (i < n + 1) = (i = n ∨ i < n) := by
      apply propext
      omega
    rw [List.range_succ, List.foldl_append, List.foldl_cons, List.foldl_nil, bit_setBit room,
      ih (by omega), ← Bool.or_assoc, ← Bool.decide_or]
    simp only [below]

@[simp] theorem length_write (bs : Bytes) (c : Nat) : (write bs c).length = bs.length := by
  dsimp only [write]
  split
  · rw [length_clearBit, length_foldl_setBit]
  · rw [length_foldl_setBit]

/-- Writing a tag bit by bit sets the bits below it, clears the next one and keeps the rest. -/
theorem bit_write (bs : Bytes) (c i : Nat) : bit (write bs c) i =
    (decide (i < 8 * bs.length) && (decide (i < c) || (decide (i ≠ c) && bit bs i))) := by
  rcases Nat.lt_or_ge i (8 * bs.length) with inside | outside
  · have fits : min c (8 * bs.length) ≤ 8 * bs.length := Nat.min_le_right ..
    have ones := bit_foldl_setBit fits i
    have below : (i < min c (8 * bs.length)) = (i < c) := by simp [inside]
    simp only [below] at ones
    dsimp only [write]
    split
    case isTrue within =>
      have room : c < 8 * ((List.range (min c (8 * bs.length))).foldl setBit bs).length := by
        rw [length_foldl_setBit]
        exact within
      rw [bit_clearBit room, ones]
      by_cases same : i = c
      · simp [same]
      · simp [same, inside]
    case isFalse beyond =>
      have lt : i < c := by omega
      rw [ones]
      simp [lt, inside]
  · have out : ¬ i < 8 * bs.length := Nat.not_lt.mpr outside
    rw [bit_of_outside (by rw [length_write]; exact outside), decide_eq_false out, Bool.false_and]

end Tagging

namespace AddressBits

variable {b : AddressBits} {c i k : Nat}

theorem count_toBytes (b : AddressBits) : Tagging.count b.toBytes = b.classOf := by
  have run := Tagging.endsInOnes_count b.toBytes
  simp only [EndsInOnes, bit_toBytes] at run
  exact (classOf_eq_iff.mpr run).symm

theorem write_toBytes (b : AddressBits) (c : Nat) :
    Tagging.write b.toBytes c = (setClass b c).toBytes := by
  apply eq_of_bit_eq
  · rw [Tagging.length_write, length_toBytes, length_toBytes]
  · intro i
    rw [Tagging.bit_write, bit_toBytes, bit_toBytes, getLsbD_setClass, length_toBytes]

theorem getLsbD_setClass_of_gt (above : c < i) : (setClass b c).getLsbD i = b.getLsbD i := by
  have past : ¬ i < c := Nat.not_lt.mpr above.le
  have ne : i ≠ c := above.ne'
  rcases Nat.lt_or_ge i 160 with inside | outside
  · rw [getLsbD_setClass]
    simp [inside, past, ne]
  · rw [BitVec.getLsbD_of_ge _ i outside, BitVec.getLsbD_of_ge _ i outside]

theorem classOf_setClass (b : AddressBits) (c : Nat) : (setClass b c).classOf = min c 160 := by
  apply classOf_eq_iff.mpr
  constructor
  · intro i below
    have lt : i < c := below.trans_le (Nat.min_le_left ..)
    have inside : i < 160 := below.trans_le (Nat.min_le_right ..)
    rw [getLsbD_setClass]
    simp [lt, inside]
  · rw [getLsbD_setClass]
    rcases Nat.lt_or_ge c 160 with inside | outside
    · rw [Nat.min_eq_left inside.le]
      simp
    · rw [Nat.min_eq_right outside]
      simp

theorem setClass_setClass (b : AddressBits) (c : Nat) : setClass (setClass b c) c = setClass b c := by
  apply BitVec.eq_of_getLsbD_eq
  intro i inside
  rcases Nat.lt_trichotomy i c with below | same | above
  · rw [getLsbD_setClass, getLsbD_setClass]
    simp [below]
  · rw [getLsbD_setClass, getLsbD_setClass]
    simp [same]
  · exact getLsbD_setClass_of_gt above

theorem setClass_classOf (b : AddressBits) : setClass b b.classOf = b := by
  apply BitVec.eq_of_getLsbD_eq
  intro i inside
  rcases Nat.lt_trichotomy i b.classOf with below | same | above
  · rw [getLsbD_setClass, getLsbD_of_lt_classOf below]
    simp [below, inside]
  · rw [getLsbD_setClass, same, getLsbD_classOf]
    simp
  · exact getLsbD_setClass_of_gt above

/-- Every string of twenty bytes is read as an address. After a class tag is written, the class is the
one of the tag, or 160 if there are not as many bits; the bits above the tag are as before; writing the
tag again changes nothing, and neither does writing the tag that is there. The class is `k` exactly if
bits `0` to `k - 1` are ones and bit `k`, where there is one, is zero. The class is what is counted byte
by byte, and the tag what is written bit by bit. -/
theorem class_tag_reads_back {bs : Bytes} (length : bs.length = 20) (c : Nat) :
    ∃ b, read bs = .ok b ∧ b.toBytes = bs ∧
      (setClass b c).classOf = min c 160 ∧
      (∀ i, c < i → bit (setClass b c).toBytes i = bit bs i) ∧
      setClass (setClass b c) c = setClass b c ∧
      setClass b b.classOf = b ∧
      (∀ k, b.classOf = k ↔ (∀ i < k, bit bs i = true) ∧ (k < 160 → bit bs k = false)) ∧
      Tagging.count bs = b.classOf ∧ Tagging.write bs c = (setClass b c).toBytes := by
  obtain ⟨b, written⟩ := exists_toBytes length
  rw [written]
  refine ⟨b, read_toBytes b, rfl, classOf_setClass b c, fun i above => ?_, setClass_setClass b c,
    setClass_classOf b, fun k => ?_, count_toBytes b, write_toBytes b c⟩
  · rw [bit_toBytes, bit_toBytes]
    exact getLsbD_setClass_of_gt above
  · simp only [bit_toBytes]
    rw [classOf_eq_iff]
    refine and_congr_right' ⟨fun zero _ => zero, fun zero => ?_⟩
    rcases Nat.lt_or_ge k 160 with inside | outside
    · exact zero inside
    · exact BitVec.getLsbD_of_ge b k outside

def straddling : Bytes := List.replicate 18 0x40 ++ [0x05, 0xff]

theorem class_tag_reads_back_straddling : straddling.length = 20 ∧
    ∃ b, read straddling = .ok b ∧ b.classOf = 9 ∧ (setClass b 17).classOf = 17 ∧
      bit (setClass b 17).toBytes 22 = true ∧ setClass b 9 = b ∧
      (setClass b 17).toBytes = List.replicate 17 0x40 ++ [0x41, 0xff, 0xff] := by
  have length : straddling.length = 20 := rfl
  obtain ⟨b, read, -, tagged, above, -, same, run, -, written⟩ := class_tag_reads_back length 17
  have found : b.classOf = 9 := (run 9).mpr ⟨by decide, fun _ => by decide⟩
  rw [found] at same
  refine ⟨length, b, read, found, tagged, ?_, same, ?_⟩
  · rw [above 22 (by decide)]
    decide
  · rw [← written]
    decide

end AddressBits

end RingOverlay
