import RingOverlay.Proofs.Address.Forms
import RingOverlay.Proofs.Number.UnitInterval
/-!
Reading addresses inverts writing them. The bytes of an address are read as the class of their tag
and as no other; what is written back differs from what was read in no bit that carries anything.
-/

set_option autoImplicit false
set_option relaxedAutoImplicit false

namespace RingOverlay

open BigEndian

theorem endsInOnes_toBytes_iff {b : AddressBits} {n : Nat} :
    EndsInOnes b.toBytes n ↔ b.classOf = n := by
  rw [AddressBits.classOf_eq_iff]
  simp only [EndsInOnes, AddressBits.bit_toBytes]

def IsAddress (bs : Bytes) : Prop :=
  EndsInOnes bs 0 ∨
  EndsInOnes bs 124 ∧ (value (bs.take 4) = 0 ∨ value (bs.take 4) = 1) ∨
  EndsInOnes bs 126 ∧ Single.InUnitInterval ⟨BitVec.ofNat 32 (value (bs.take 4))⟩ ∨
  EndsInOnes bs 159

namespace Address

variable {a : Address} {b : AddressBits} {bs : Bytes} {c : AddressClass}

def ofClassBytes (c : AddressClass) (bs : Bytes) : Except AddressError Address :=
  match c with
  | .ring => .ring <$> RingAddress.ofBytes bs
  | .directional => .directional <$> Bearing.ofBytes bs
  | .flood => .flood <$> FloodAddress.ofBytes bs
  | .randomWalk => (fun _ => .randomWalk) <$> readRandomWalk bs

/-- If the address is a flood, its probability lies in the unit interval. -/
def InRange : Address → Prop
  | .flood a => a.probability.InUnitInterval
  | _ => True

def spare : Address → AddressBits
  | .directional _ => AddressBits.spare
  | _ => 0

private theorem clear_none (b : AddressBits) : b &&& ~~~(0 : AddressBits) = b := by
  change b &&& ~~~0#160 = b
  rw [BitVec.not_zero, BitVec.and_allOnes]

theorem ofBytes_toBytes (b : AddressBits) : ofBytes b.toBytes =
    match AddressClass.ofTag? b.classOf with
    | some c => ofClassBytes c b.toBytes
    | none => .error (.unknownClass b.classOf) := by
  simp only [ofBytes, AddressBits.read_toBytes, bind, Except.bind]
  cases AddressClass.ofTag? b.classOf with
  | none => rfl
  | some c => cases c <;> rfl

theorem map_eq_ok_iff {ε α β : Type} {f : α → β} {x : Except ε α} {y : β} :
    f <$> x = .ok y ↔ ∃ v, x = .ok v ∧ f v = y := by
  cases x with
  | error e =>
    refine iff_of_false (fun found => ?_) fun ⟨v, found, _⟩ => ?_ <;> cases found
  | ok v =>
    constructor
    · intro found
      exact ⟨v, rfl, Except.ok.inj found⟩
    · rintro ⟨w, found, rfl⟩
      rw [Except.ok.inj found]
      rfl

theorem classOf_toAddressBits (a : Address) : a.toAddressBits.classOf = a.addressClass.tag := by
  cases a with
  | ring a => exact a.classOf_bits
  | directional d => exact AddressBits.classOf_ofLeading _ (by decide)
  | flood a => exact a.classOf_toAddressBits
  | randomWalk => exact classOf_randomWalk

theorem ofClassBytes_toBytes_iff : ofClassBytes c b.toBytes = .ok a ↔
    a.addressClass = c ∧ a.InRange ∧ b &&& ~~~a.spare = a.toAddressBits := by
  have plain := clear_none b
  cases c with
  | ring =>
    simp only [ofClassBytes, map_eq_ok_iff, RingAddress.ofBytes_toBytes_iff]
    constructor
    · rintro ⟨p, rfl, rfl⟩
      exact ⟨rfl, trivial, plain⟩
    · rintro ⟨kind, -, same⟩
      cases a <;> cases kind
      exact ⟨_, plain.symm.trans same, rfl⟩
  | directional =>
    simp only [ofClassBytes, map_eq_ok_iff, Bearing.ofBytes_toBytes_iff]
    constructor
    · rintro ⟨d, same, rfl⟩
      exact ⟨rfl, trivial, same⟩
    · rintro ⟨kind, -, same⟩
      cases a <;> cases kind
      exact ⟨_, same, rfl⟩
  | flood =>
    simp only [ofClassBytes, map_eq_ok_iff, FloodAddress.ofBytes_toBytes_iff, Single.inUnit_iff]
    constructor
    · rintro ⟨t, ⟨unit, rfl⟩, rfl⟩
      exact ⟨rfl, unit, plain⟩
    · rintro ⟨kind, unit, same⟩
      cases a <;> cases kind
      exact ⟨_, ⟨unit, plain.symm.trans same⟩, rfl⟩
  | randomWalk =>
    rw [ofClassBytes, map_eq_ok_iff]
    constructor
    · rintro ⟨⟨⟩, read, rfl⟩
      exact ⟨rfl, trivial, plain.trans (readRandomWalk_toBytes_iff.mp read)⟩
    · rintro ⟨kind, -, same⟩
      cases a <;> cases kind
      exact ⟨(), readRandomWalk_toBytes_iff.mpr (plain.symm.trans same), rfl⟩

theorem ofClassBytes_of_length_ne (length : bs.length ≠ 20) (c : AddressClass) :
    ofClassBytes c bs = .error (.wrongLength bs.length) := by
  have refused := AddressBits.readClass_of_length_ne length
  cases c with
  | ring => simp only [ofClassBytes, RingAddress.ofBytes, refused]; rfl
  | directional => simp only [ofClassBytes, Bearing.ofBytes, refused]; rfl
  | flood => simp only [ofClassBytes, FloodAddress.ofBytes, refused]; rfl
  | randomWalk => simp only [ofClassBytes, readRandomWalk, refused]; rfl

theorem ofBytes_of_length_ne (length : bs.length ≠ 20) :
    ofBytes bs = .error (.wrongLength bs.length) := by
  unfold ofBytes
  rw [AddressBits.read_of_length_ne length]
  rfl

theorem classOf_of_clear_spare (same : b &&& ~~~a.spare = a.toAddressBits) :
    b.classOf = a.addressClass.tag := by
  have tag := a.classOf_toAddressBits
  rw [← same] at tag
  cases a with
  | directional d => exact (AddressBits.classOf_clear_spare_iff b).mp tag
  | ring p => exact clear_none b ▸ tag
  | flood t => exact clear_none b ▸ tag
  | randomWalk => exact clear_none b ▸ tag

theorem ofBytes_eq_ok_iff_ofClassBytes : ofBytes bs = .ok a ↔ ∃ c, ofClassBytes c bs = .ok a := by
  by_cases length : bs.length = 20
  · obtain ⟨b, written⟩ := AddressBits.exists_toBytes length
    rw [written, ofBytes_toBytes]
    constructor
    · intro found
      cases tag : AddressClass.ofTag? b.classOf with
      | none =>
        rw [tag] at found
        cases found
      | some c =>
        rw [tag] at found
        exact ⟨c, found⟩
    · rintro ⟨c, found⟩
      obtain ⟨rfl, -, same⟩ := ofClassBytes_toBytes_iff.mp found
      rw [AddressClass.ofTag?_eq_some_iff.mpr (classOf_of_clear_spare same)]
      exact found
  · rw [ofBytes_of_length_ne length]
    refine iff_of_false (fun found => ?_) fun ⟨c, found⟩ => ?_
    · cases found
    · rw [ofClassBytes_of_length_ne length] at found
      cases found

theorem ofBytes_toBytes_iff :
    ofBytes b.toBytes = .ok a ↔ a.InRange ∧ b &&& ~~~a.spare = a.toAddressBits := by
  rw [ofBytes_eq_ok_iff_ofClassBytes]
  constructor
  · rintro ⟨c, found⟩
    exact (ofClassBytes_toBytes_iff.mp found).2
  · intro read
    exact ⟨a.addressClass, ofClassBytes_toBytes_iff.mpr ⟨rfl, read⟩⟩

theorem getLsbD_spare (a : Address) (i : Nat) :
    a.spare.getLsbD i = decide (a.addressClass = .directional ∧ 125 ≤ i ∧ i ≤ 127) := by
  cases a with
  | directional d => simpa [spare, addressClass] using AddressBits.getLsbD_spare i
  | ring p => simp [spare, addressClass]
  | flood t => simp [spare, addressClass]
  | randomWalk => simp [spare, addressClass]

private theorem exists_position_iff :
    (∃ p : RingAddress, b = p.bits) ↔ b.classOf = AddressClass.ring.tag := by
  constructor
  · rintro ⟨p, rfl⟩
    exact p.classOf_bits
  · intro tagged
    exact ⟨⟨b, (AddressBits.classOf_eq_iff.mp tagged).2⟩, rfl⟩

private theorem exists_bearing_iff (n : BitVec 32) :
    (∃ d : Bearing, n = d.toBits) ↔ n.toNat = 0 ∨ n.toNat = 1 := by
  constructor
  · rintro ⟨d, rfl⟩
    cases d
    · exact Or.inl rfl
    · exact Or.inr rfl
  · rintro (left | right)
    · exact ⟨.left, BitVec.eq_of_toNat_eq left⟩
    · exact ⟨.right, BitVec.eq_of_toNat_eq right⟩

private theorem exists_flood_iff :
    (∃ t : FloodAddress, t.probability.inUnit = true ∧ b = t.toAddressBits) ↔
      b.classOf = AddressClass.flood.tag ∧ Single.InUnitInterval ⟨b.leading⟩ := by
  constructor
  · rintro ⟨t, unit, rfl⟩
    rw [FloodAddress.leading_toAddressBits]
    exact ⟨t.classOf_toAddressBits, Single.inUnit_iff.mp unit⟩
  · rintro ⟨tagged, unit⟩
    exact ⟨⟨b.getLsbD FloodAddress.flagBit, ⟨b.leading⟩⟩, Single.inUnit_iff.mpr unit,
      (FloodAddress.toAddressBits_fields tagged).symm⟩

private theorem exists_map_eq_ok_iff {ε α β : Type} {f : α → β} {x : Except ε α} :
    (∃ y, f <$> x = .ok y) ↔ ∃ v, x = .ok v := by
  simp only [map_eq_ok_iff]
  constructor
  · rintro ⟨_, v, found, _⟩
    exact ⟨v, found⟩
  · rintro ⟨v, found⟩
    exact ⟨_, v, found, rfl⟩

theorem exists_ofClassBytes_toBytes_iff (b : AddressBits) (c : AddressClass) :
    (∃ a, ofClassBytes c b.toBytes = .ok a) ↔ b.classOf = c.tag ∧
      match c with
      | .ring | .randomWalk => True
      | .directional => b.leading.toNat = 0 ∨ b.leading.toNat = 1
      | .flood => Single.InUnitInterval ⟨b.leading⟩ := by
  cases c with
  | ring =>
    simp only [ofClassBytes, exists_map_eq_ok_iff, RingAddress.ofBytes_toBytes_iff,
      exists_position_iff, and_true]
  | directional =>
    simp only [ofClassBytes, exists_map_eq_ok_iff, Bearing.ofBytes_toBytes_iff_fields,
      exists_and_left, exists_bearing_iff]
  | flood =>
    simp only [ofClassBytes, exists_map_eq_ok_iff, FloodAddress.ofBytes_toBytes_iff,
      exists_flood_iff]
  | randomWalk =>
    rw [ofClassBytes, exists_map_eq_ok_iff, and_true, ← eq_randomWalk_iff,
      ← readRandomWalk_toBytes_iff]
    exact ⟨fun ⟨_, read⟩ => read, fun read => ⟨_, read⟩⟩

theorem exists_ofBytes_toBytes_iff (b : AddressBits) :
    (∃ a, ofBytes b.toBytes = .ok a) ↔ IsAddress b.toBytes := by
  have number : BitVec.ofNat 32 b.leading.toNat = b.leading := by
    rw [BitVec.ofNat_toNat, BitVec.setWidth_eq]
  have classes : (∃ a, ofBytes b.toBytes = .ok a) ↔ ∃ c a, ofClassBytes c b.toBytes = .ok a := by
    simp only [ofBytes_eq_ok_iff_ofClassBytes]
    exact exists_comm
  simp only [classes, exists_ofClassBytes_toBytes_iff, IsAddress, endsInOnes_toBytes_iff,
    ← AddressBits.toNat_leading_toBytes, number]
  constructor
  · rintro ⟨c, tagged, payload⟩
    cases c with
    | ring => exact Or.inl tagged
    | directional => exact Or.inr (Or.inl ⟨tagged, payload⟩)
    | flood => exact Or.inr (Or.inr (Or.inl ⟨tagged, payload⟩))
    | randomWalk => exact Or.inr (Or.inr (Or.inr tagged))
  · rintro (tagged | ⟨tagged, payload⟩ | ⟨tagged, payload⟩ | tagged)
    · exact ⟨.ring, tagged, trivial⟩
    · exact ⟨.directional, tagged, payload⟩
    · exact ⟨.flood, tagged, payload⟩
    · exact ⟨.randomWalk, tagged, trivial⟩

private theorem toAddressBits_clear_spare (a : Address) :
    a.toAddressBits &&& ~~~a.spare = a.toAddressBits := by
  cases a with
  | directional d =>
    apply Bearing.ofBytes_toBytes_iff.mp
    apply Bearing.ofBytes_toBytes_iff_fields.mpr
    exact ⟨AddressBits.classOf_ofLeading _ (by decide), AddressBits.leading_ofLeading _ (by decide)⟩
  | ring p => exact clear_none _
  | flood t => exact clear_none _
  | randomWalk => exact clear_none _

theorem ofBytes_written (valid : a.InRange) : ofBytes a.toBytes = .ok a :=
  ofBytes_toBytes_iff.mpr ⟨valid, toAddressBits_clear_spare a⟩

theorem ofClassBytes_written (valid : a.InRange) : ofClassBytes a.addressClass a.toBytes = .ok a :=
  ofClassBytes_toBytes_iff.mpr ⟨rfl, valid, toAddressBits_clear_spare a⟩

theorem exists_of_ofBytes (read : ofBytes bs = .ok a) :
    ∃ b : AddressBits, bs = b.toBytes ∧ a.InRange ∧ b &&& ~~~a.spare = a.toAddressBits := by
  by_cases length : bs.length = 20
  · obtain ⟨b, written⟩ := AddressBits.exists_toBytes length
    rw [written] at read
    exact ⟨b, written, ofBytes_toBytes_iff.mp read⟩
  · rw [ofBytes_of_length_ne length] at read
    cases read

theorem bit_toBytes_of_ofBytes (read : ofBytes bs = .ok a) (i : Nat) : bit a.toBytes i =
    if a.addressClass = .directional ∧ 125 ≤ i ∧ i ≤ 127 then false else bit bs i := by
  obtain ⟨b, written, -, kept⟩ := exists_of_ofBytes read
  rw [written, toBytes, AddressBits.bit_toBytes, AddressBits.bit_toBytes, ← kept, BitVec.getLsbD_and,
    BitVec.getLsbD_not, getLsbD_spare]
  rcases Nat.lt_or_ge i 160 with inside | outside
  · by_cases spare : a.addressClass = .directional ∧ 125 ≤ i ∧ i ≤ 127
    · simp [spare]
    · rw [if_neg spare, decide_eq_false spare]
      simp [inside]
  · simp [BitVec.getLsbD_of_ge b i outside]

theorem toBytes_of_ofBytes (read : ofBytes bs = .ok a) : a.toBytes =
    if a.addressClass = .directional then bs.modify 4 (· &&& 0x1f) else bs := by
  have length : bs.length = 20 := by
    obtain ⟨b, written, -⟩ := exists_of_ofBytes read
    rw [written, AddressBits.length_toBytes]
  have written : a.toBytes.length = 20 := AddressBits.length_toBytes _
  split
  · rename_i directional
    apply eq_of_bit_eq
    · rw [written, List.length_modify, length]
    · intro i
      have masked : 4 < (bs.modify 4 (· &&& 0x1f)).length := by
        rw [List.length_modify]
        omega
      rw [bit_toBytes_of_ofBytes read]
      by_cases here : i / 8 = bs.length - 1 - 4
      · have split : (125 ≤ i ∧ i ≤ 127) = ¬ i % 8 < 5 := by
          apply propext
          omega
        rw [bit_of_byte masked (by rw [List.length_modify]; exact here), List.getElem_modify_eq,
          testBit_and_mask, bit_of_byte (by omega) here]
        simp only [directional, true_and, split]
        by_cases low : i % 8 < 5 <;> simp [low]
      · have not_spare : ¬ (125 ≤ i ∧ i ≤ 127) := by omega
        rw [bit_modify_of_ne _ (by omega) here, if_neg fun h => not_spare h.2]
  · rename_i other
    apply eq_of_bit_eq (written.trans length.symm)
    intro i
    rw [bit_toBytes_of_ofBytes read, if_neg fun h => other h.1]

/-- At most one class reads a byte string as an address, and the general reader takes what one of
them takes: twenty bytes of the four forms. Reading gives back what was written, and writing gives
back what was read, bit by bit, up to the bits that carry nothing. -/
theorem ofBytes_inverts_toBytes :
    (∀ bs a b c d, ofClassBytes c bs = .ok a → ofClassBytes d bs = .ok b → c = d) ∧
    (∀ bs a, ofBytes bs = .ok a ↔ ∃ c, ofClassBytes c bs = .ok a) ∧
    (∀ bs : Bytes, bs.length = 20 → ((∃ a, ofBytes bs = .ok a) ↔ IsAddress bs)) ∧
    (∀ bs : Bytes, bs.length ≠ 20 → ofBytes bs = .error (.wrongLength bs.length) ∧
      ∀ c, ofClassBytes c bs = .error (.wrongLength bs.length)) ∧
    (∀ a : Address, a.InRange →
      ofBytes a.toBytes = .ok a ∧ ofClassBytes a.addressClass a.toBytes = .ok a) ∧
    (∀ bs a, ofBytes bs = .ok a → a.toBytes.length = bs.length ∧ ∀ i, bit a.toBytes i =
      if a.addressClass = .directional ∧ 125 ≤ i ∧ i ≤ 127 then false else bit bs i) := by
  refine ⟨?_, ?_, ?_, ?_, ?_, ?_⟩
  · intro bs a b c d first second
    by_cases length : bs.length = 20
    · obtain ⟨e, written⟩ := AddressBits.exists_toBytes length
      rw [written] at first second
      obtain ⟨rfl, -, same⟩ := ofClassBytes_toBytes_iff.mp first
      obtain ⟨rfl, -, alike⟩ := ofClassBytes_toBytes_iff.mp second
      apply AddressClass.tag_injective
      rw [← classOf_of_clear_spare same, ← classOf_of_clear_spare alike]
    · rw [ofClassBytes_of_length_ne length] at first
      cases first
  · intro bs a
    exact ofBytes_eq_ok_iff_ofClassBytes
  · intro bs length
    obtain ⟨b, written⟩ := AddressBits.exists_toBytes length
    rw [written]
    exact exists_ofBytes_toBytes_iff b
  · intro bs length
    exact ⟨ofBytes_of_length_ne length, ofClassBytes_of_length_ne length⟩
  · intro a valid
    exact ⟨ofBytes_written valid, ofClassBytes_written valid⟩
  · intro bs a read
    obtain ⟨b, written, -⟩ := exists_of_ofBytes read
    refine ⟨?_, bit_toBytes_of_ofBytes read⟩
    rw [written, AddressBits.length_toBytes]
    exact AddressBits.length_toBytes _

def stillFlood : Address := .flood ⟨true, ⟨0x80000000⟩⟩

theorem ofBytes_inverts_toBytes_stillFlood :
    stillFlood.InRange ∧ ofBytes stillFlood.toBytes = .ok stillFlood ∧
      stillFlood.toBytes.length = 20 ∧ IsAddress stillFlood.toBytes := by
  have valid : stillFlood.InRange := Single.inUnit_iff.mp (by decide)
  have read := (ofBytes_inverts_toBytes.2.2.2.2.1 stillFlood valid).1
  have length : stillFlood.toBytes.length = 20 := by decide +kernel
  exact ⟨valid, read, length, (ofBytes_inverts_toBytes.2.2.1 _ length).mp ⟨_, read⟩⟩

end Address

end RingOverlay
