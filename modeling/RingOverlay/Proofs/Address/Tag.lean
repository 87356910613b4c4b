import Mathlib.Tactic.NormNum
import RingOverlay.Address.Codec
import RingOverlay.Proofs.Bytes.BigEndian
/-!
Class tags bit by bit, and the fields that stand above them.
-/

set_option autoImplicit false
set_option relaxedAutoImplicit false

namespace RingOverlay

open BigEndian

theorem length_takeWhile_range_eq_iff {p : Nat → Bool} {w n : Nat} (stops : p w = false) :
    ((List.range w).takeWhile p).length = n ↔ (∀ i < n, p i = true) ∧ p n = false := by
  have run : ((List.range w).takeWhile p).length = (List.range w).findIdx (fun i => !p i) := by
    rw [List.takeWhile_eq_take_findIdx_not, List.length_take]
    exact Nat.min_eq_left List.findIdx_le_length
  have found : (∀ i < (List.range w).findIdx (fun i => !p i), p i = true) ∧
      p ((List.range w).findIdx (fun i => !p i)) = false := by
    refine ⟨fun i below => by simpa using List.not_of_lt_findIdx below, ?_⟩
    rcases Nat.lt_or_ge ((List.range w).findIdx (fun i => !p i)) (List.range w).length
      with inside | outside
    · simpa using List.findIdx_getElem (w := inside)
    · rw [Nat.le_antisymm List.findIdx_le_length outside, List.length_range]
      exact stops
  rw [run]
  generalize (List.range w).findIdx (fun i => !p i) = m at found
  obtain ⟨ones, zero⟩ := found
  constructor
  · rintro rfl
    exact ⟨ones, zero⟩
  · rintro ⟨ones', zero'⟩
    rcases Nat.lt_trichotomy m n with less | same | more
    · exact absurd (ones' m less) (by rw [zero]; exact Bool.false_ne_true)
    · exact same
    · exact absurd (ones n more) (by rw [zero']; exact Bool.false_ne_true)

namespace AddressClass

theorem ofTag?_eq_some_iff {n : Nat} {c : AddressClass} : ofTag? n = some c ↔ n = c.tag := by
  constructor
  · intro found
    unfold ofTag? at found
    split at found <;> cases found <;> rfl
  · rintro rfl
    cases c <;> rfl

theorem tag_injective {c d : AddressClass} (same : c.tag = d.tag) : c = d := by
  have found := ofTag?_eq_some_iff.mpr same
  rw [ofTag?_eq_some_iff.mpr rfl] at found
  exact Option.some.inj found

end AddressClass

namespace AddressBits

variable {b : AddressBits} {bs : Bytes} {c i : Nat}

theorem classOf_eq_iff : b.classOf = c ↔ (∀ i < c, b.getLsbD i = true) ∧ b.getLsbD c = false :=
  length_takeWhile_range_eq_iff (BitVec.getLsbD_of_ge b 160 (Nat.le_refl _))

theorem getLsbD_of_lt_classOf (below : i < b.classOf) : b.getLsbD i = true :=
  (classOf_eq_iff.mp rfl).1 i below

theorem getLsbD_classOf (b : AddressBits) : b.getLsbD b.classOf = false :=
  (classOf_eq_iff.mp rfl).2

private theorem setClass_eq (b : AddressBits) (c : Nat) : setClass b c =
    (b ||| (BitVec.ofNat 160 (2 ^ min c 160) - 1#160)) &&& ~~~BitVec.ofNat 160 (2 ^ min c 160) := by
  unfold setClass
  simp only [Nat.one_shiftLeft]
  rfl

private theorem ofNat_sub_one (c : Nat) :
    BitVec.ofNat 160 (2 ^ min c 160) - 1#160 = BitVec.ofNat 160 (2 ^ min c 160 - 1) := by
  have positive : 0 < 2 ^ min c 160 := Nat.two_pow_pos _
  have bound : 2 ^ min c 160 ≤ 2 ^ 160 := Nat.pow_le_pow_right (by decide) (Nat.min_le_right _ _)
  apply BitVec.eq_of_toNat_eq
  rw [BitVec.toNat_sub, BitVec.toNat_ofNat, BitVec.toNat_ofNat, BitVec.toNat_ofNat]
  generalize 2 ^ min c 160 = n at *
  norm_num at *
  omega

/-- Writing a class tag sets the bits below it, clears the next one and keeps the rest. -/
theorem getLsbD_setClass (b : AddressBits) (c i : Nat) :
    (setClass b c).getLsbD i =
      (decide (i < 160) && (decide (i < c) || (decide (i ≠ c) && b.getLsbD i))) := by
  rw [setClass_eq, ofNat_sub_one, BitVec.getLsbD_and, BitVec.getLsbD_or, BitVec.getLsbD_not,
    BitVec.getLsbD_ofNat, BitVec.getLsbD_ofNat, Nat.testBit_two_pow_sub_one, Nat.testBit_two_pow]
  rcases Nat.lt_or_ge i 160 with inside | outside
  · have below : (i < min c 160) = (i < c) := by simp [inside]
    have at_tag : (min c 160 = i) = (i = c) := by
      apply propext
      omega
    simp only [inside, below, at_tag, decide_true, Bool.true_and]
    by_cases lt : i < c
    · have ne : i ≠ c := Nat.ne_of_lt lt
      simp [lt, ne]
    · simp [lt, Bool.and_comm]
  · have none_above := BitVec.getLsbD_of_ge b i outside
    have not_inside : ¬ i < 160 := Nat.not_lt.mpr outside
    simp [not_inside]

@[simp] theorem length_toBytes (b : AddressBits) : b.toBytes.length = 20 := length_digits ..

theorem value_toBytes (b : AddressBits) : value b.toBytes = b.toNat := by
  rw [toBytes, value_digits]
  exact Nat.mod_eq_of_lt b.isLt

theorem bit_toBytes (b : AddressBits) (i : Nat) : bit b.toBytes i = b.getLsbD i := by
  rw [← testBit_value, value_toBytes, BitVec.testBit_toNat]

theorem ofBytes?_eq_some_iff : ofBytes? bs = some b ↔ bs = b.toBytes := by
  unfold ofBytes?
  split
  · rename_i length
    rw [Option.some_inj]
    have room : 256 ^ byteCount = 2 ^ 160 := by norm_num [byteCount]
    have bound : value bs < 2 ^ 160 := by
      rw [← room, ← length]
      exact value_lt bs
    constructor
    · rintro rfl
      rw [toBytes, BitVec.toNat_ofNat, Nat.mod_eq_of_lt bound, ← length, digits_value]
    · intro same
      rw [same, value_toBytes, BitVec.ofNat_toNat, BitVec.setWidth_eq]
  · rename_i length
    constructor
    · intro none_found
      cases none_found
    · intro same
      rw [same] at length
      exact absurd b.length_toBytes length

theorem exists_toBytes (length : bs.length = 20) : ∃ b : AddressBits, bs = b.toBytes :=
  ⟨_, ofBytes?_eq_some_iff.mp (if_pos length)⟩

theorem read_toBytes (b : AddressBits) : read b.toBytes = .ok b := by
  simp only [read, ofBytes?_eq_some_iff.mpr rfl]

theorem read_of_length_ne (length : bs.length ≠ 20) : read bs = .error (.wrongLength bs.length) := by
  have none_found : ofBytes? bs = none := if_neg length
  simp only [read, none_found]

theorem readClass_toBytes (b : AddressBits) (c : AddressClass) : readClass c b.toBytes =
    if b.classOf = c.tag then .ok b else .error (.wrongClass c.tag b.classOf) := by
  rw [readClass, read_toBytes]
  rfl

theorem readClass_of_length_ne (length : bs.length ≠ 20) (c : AddressClass) :
    readClass c bs = .error (.wrongLength bs.length) := by
  rw [readClass, read_of_length_ne length]
  rfl

theorem getLsbD_leading (b : AddressBits) (i : Nat) :
    b.leading.getLsbD i = (decide (i < 32) && b.getLsbD (128 + i)) :=
  BitVec.getLsbD_extractLsb' ..

theorem toNat_leading_toBytes (b : AddressBits) : b.leading.toNat = value (b.toBytes.take 4) := by
  have split : value b.toBytes = value (b.toBytes.take 4) * 256 ^ 16 + value (b.toBytes.drop 4) := by
    conv_lhs => rw [← List.take_append_drop 4 b.toBytes, value_append, List.length_drop, length_toBytes]
  have low := value_lt (b.toBytes.drop 4)
  rw [List.length_drop, length_toBytes] at low
  have high := value_lt (b.toBytes.take 4)
  rw [List.length_take, length_toBytes] at high
  have all := value_toBytes b
  have leading : b.leading.toNat = b.toNat / 256 ^ 16 % 2 ^ 32 := by
    rw [AddressBits.leading, BitVec.extractLsb'_toNat, Nat.shiftRight_eq_div_pow]
    norm_num
  norm_num at *
  omega

theorem eq_of_above {b e : AddressBits} (tag : b.classOf = e.classOf)
    (above : ∀ i < 160, b.classOf < i → b.getLsbD i = e.getLsbD i) : b = e := by
  apply BitVec.eq_of_getLsbD_eq
  intro i inside
  rcases Nat.lt_trichotomy i b.classOf with below | same | past
  · rw [getLsbD_of_lt_classOf below, getLsbD_of_lt_classOf (tag ▸ below)]
  · have last : i = e.classOf := same.trans tag
    conv_lhs => rw [same, getLsbD_classOf]
    rw [last, getLsbD_classOf]
  · exact above i inside past

/-- Addresses of one class are equal if they agree in the number in front and in what lies between
it and the tag. -/
theorem eq_of_fields {b e : AddressBits} (tag : b.classOf = e.classOf)
    (between : ∀ i < 128, b.classOf < i → b.getLsbD i = e.getLsbD i)
    (number : b.leading = e.leading) : b = e := by
  refine eq_of_above tag fun i inside past => ?_
  rcases Nat.lt_or_ge i 128 with low | high
  · exact between i low past
  · have digit : b.leading.getLsbD (i - 128) = e.leading.getLsbD (i - 128) := by rw [number]
    have narrow : i - 128 < 32 := by omega
    have place : 128 + (i - 128) = i := by omega
    rw [getLsbD_leading, getLsbD_leading, place, decide_eq_true narrow] at digit
    exact digit

/-- The bits of an address that carries a number: the tag, the number above bit 127 and nothing
in between. -/
theorem getLsbD_ofLeading (n : BitVec 32) (c : AddressClass) (i : Nat) :
    (ofLeading n c).getLsbD i = (decide (i < 160) && (decide (i < c.tag) ||
      (decide (i ≠ c.tag) && (decide (128 ≤ i) && n.getLsbD (i - 128))))) := by
  rw [ofLeading, getLsbD_setClass, BitVec.getLsbD_shiftLeft, BitVec.getLsbD_setWidth]
  rcases Nat.lt_or_ge i 160 with inside | outside
  · have near : i - 128 < 160 := by omega
    by_cases above : 128 ≤ i
    · have not_below : ¬ i < 128 := by omega
      simp [inside, near, above, not_below]
    · have below : i < 128 := by omega
      simp [inside, above, below]
  · have not_inside : ¬ i < 160 := by omega
    simp [not_inside]

theorem classOf_ofLeading (n : BitVec 32) {c : AddressClass} (narrow : c.tag < 128) :
    (ofLeading n c).classOf = c.tag := by
  apply classOf_eq_iff.mpr
  constructor
  · intro i below
    have inside : i < 160 := by omega
    rw [getLsbD_ofLeading]
    simp [inside, below]
  · rw [getLsbD_ofLeading]
    simp

theorem leading_ofLeading (n : BitVec 32) {c : AddressClass} (narrow : c.tag < 128) :
    (ofLeading n c).leading = n := by
  apply BitVec.eq_of_getLsbD_eq
  intro i inside
  have far : 128 + i < 160 := by omega
  have past : ¬ 128 + i < c.tag := by omega
  have ne : 128 + i ≠ c.tag := by omega
  rw [getLsbD_leading, getLsbD_ofLeading]
  simp [inside, far, past, ne]

theorem getLsbD_ofLeading_between (n : BitVec 32) {c : AddressClass} {i : Nat} (above : c.tag < i)
    (low : i < 128) : (ofLeading n c).getLsbD i = false := by
  have past : ¬ i < c.tag := by omega
  have short : ¬ 128 ≤ i := by omega
  rw [getLsbD_ofLeading]
  simp [past, short]

def spare : AddressBits := BitVec.ofNat 160 (2 ^ 3 - 1) <<< 125

theorem getLsbD_spare (i : Nat) : spare.getLsbD i = decide (125 ≤ i ∧ i ≤ 127) := by
  have three : i - 125 < 3 ↔ i ≤ 127 := by omega
  rw [spare, BitVec.getLsbD_shiftLeft, BitVec.getLsbD_ofNat, Nat.testBit_two_pow_sub_one]
  rw [Bool.eq_iff_iff]
  simp only [Bool.and_eq_true, Bool.not_eq_true', decide_eq_true_eq, decide_eq_false_iff_not]
  omega

theorem getLsbD_clear_spare (b : AddressBits) (i : Nat) :
    (b &&& ~~~spare).getLsbD i = (b.getLsbD i && !decide (125 ≤ i ∧ i ≤ 127)) := by
  rw [BitVec.getLsbD_and, BitVec.getLsbD_not, getLsbD_spare]
  rcases Nat.lt_or_ge i 160 with inside | outside
  · simp [inside]
  · simp [BitVec.getLsbD_of_ge b i outside]

theorem classOf_clear_spare_iff (b : AddressBits) :
    (b &&& ~~~spare).classOf = 124 ↔ b.classOf = 124 := by
  have same (i : Nat) (low : i ≤ 124) : (b &&& ~~~spare).getLsbD i = b.getLsbD i := by
    have not_spare : ¬ (125 ≤ i ∧ i ≤ 127) := by omega
    rw [getLsbD_clear_spare]
    simp [not_spare]
  rw [classOf_eq_iff, classOf_eq_iff, same 124 (Nat.le_refl _)]
  refine and_congr_left' (forall₂_congr fun i below => ?_)
  rw [same i below.le]

theorem leading_clear_spare (b : AddressBits) : (b &&& ~~~spare).leading = b.leading := by
  apply BitVec.eq_of_getLsbD_eq
  intro i inside
  have not_spare : ¬ (125 ≤ 128 + i ∧ 128 + i ≤ 127) := by omega
  rw [getLsbD_leading, getLsbD_leading, getLsbD_clear_spare]
  simp [not_spare]

end AddressBits

end RingOverlay
