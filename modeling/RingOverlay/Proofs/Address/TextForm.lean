import RingOverlay.Proofs.Address.Text
import RingOverlay.Proofs.Data.Text
import RingOverlay.Data.Shape
/-!
Which texts are addresses. A text is read as an address exactly if it is the fixed start followed by
forty digits that spell the bytes of one. Texts are read as the same bytes exactly if they differ at
most in the case of digits, but for the bits of directional addresses that carry nothing.
-/

set_option autoImplicit false
set_option relaxedAutoImplicit false

namespace RingOverlay

open BigEndian Hex

namespace Address

variable {s : String} {a : Address} {bs : Bytes}

/-- The text is the start of address texts and forty digits that spell the bytes. -/
def IsTextOf (s : String) (bs : Bytes) : Prop :=
  ∃ ds, s.toList = textStart.toList ++ ds ∧ ds.length = 40 ∧ Spells ds bs

theorem ofText_eq_ok_iff : ofText s = .ok a ↔
    ∃ ds bs, s.toList = textStart.toList ++ ds ∧ Spells ds bs ∧ ofBytes bs = .ok a := by
  simp only [← afterStart?_eq_some_iff, ← decode_eq_ok_iff]
  unfold ofText
  cases afterStart? textStart.toList s.toList with
  | none => simp
  | some rest =>
    cases decoded : decode (Utf8.encode rest) with
    | error e => simp [decoded]
    | ok bs => simp [decoded]

theorem length_of_ofBytes (read : ofBytes bs = .ok a) : bs.length = 20 := by
  obtain ⟨b, written, -⟩ := exists_of_ofBytes read
  rw [written]
  exact AddressBits.length_toBytes b

theorem ofText_eq_ok_iff_isTextOf :
    ofText s = .ok a ↔ ∃ bs, IsTextOf s bs ∧ ofBytes bs = .ok a := by
  rw [ofText_eq_ok_iff]
  constructor
  · rintro ⟨ds, bs, text, spells, read⟩
    refine ⟨bs, ⟨ds, text, ?_, spells⟩, read⟩
    rw [spells.length, length_of_ofBytes read]
  · rintro ⟨bs, ⟨ds, text, -, spells⟩, read⟩
    exact ⟨ds, bs, text, spells, read⟩

theorem toBytes_of_ofBytes_of_ne (read : ofBytes bs = .ok a) (other : a.addressClass ≠ .directional) :
    a.toBytes = bs := by
  rw [toBytes_of_ofBytes read, if_neg other]

theorem exists_position_of_endsInOnes (read : ofBytes bs = .ok a) (zero : EndsInOnes bs 0) :
    ∃ p, a = .ring p := by
  obtain ⟨b, written, -, kept⟩ := exists_of_ofBytes read
  rw [written] at zero
  have tag : a.addressClass.tag = AddressClass.ring.tag :=
    (classOf_of_clear_spare kept).symm.trans (endsInOnes_toBytes_iff.mp zero)
  have ring := AddressClass.tag_injective tag
  cases a with
  | ring p => exact ⟨p, rfl⟩
  | directional d => cases ring
  | flood f => cases ring
  | randomWalk => cases ring

theorem endsInOnes_of_ofBytes_ring {p : RingAddress} (read : ofBytes bs = .ok (.ring p)) :
    EndsInOnes bs 0 := by
  have bytes : (ring p).toBytes = bs := toBytes_of_ofBytes_of_ne read nofun
  rw [← bytes]
  exact endsInOnes_toBytes_iff.mpr p.classOf_bits

end Address

theorem RingAddress.ofText_eq_ok_iff {s : String} {p : RingAddress} :
    RingAddress.ofText s = .ok p ↔ Address.ofText s = .ok (.ring p) := by
  unfold RingAddress.ofText
  cases Address.ofText s with
  | error e => simp [bind, Except.bind]
  | ok a => cases a <;> simp [bind, Except.bind]

theorem RingAddress.exists_ofText_iff {s : String} : (∃ p, RingAddress.ofText s = .ok p) ↔
    ∃ bs, Address.IsTextOf s bs ∧ (∃ a, Address.ofBytes bs = .ok a) ∧ EndsInOnes bs 0 := by
  simp only [RingAddress.ofText_eq_ok_iff, Address.ofText_eq_ok_iff_isTextOf]
  constructor
  · rintro ⟨p, bs, text, read⟩
    exact ⟨bs, text, ⟨_, read⟩, Address.endsInOnes_of_ofBytes_ring read⟩
  · rintro ⟨bs, text, ⟨a, read⟩, zero⟩
    obtain ⟨p, rfl⟩ := Address.exists_position_of_endsInOnes read zero
    exact ⟨p, bs, text, read⟩

theorem Value.readAddress_string (s : String) :
    (Value.string s).readAddress = (Address.ofText s).mapError .address := rfl

theorem Value.readPosition_string (s : String) :
    (Value.string s).readPosition = (RingAddress.ofText s).mapError .address := rfl

/-- A text is read as an address exactly if it is the fixed start and forty digits of either case whose
bytes are read as that address, and as a position exactly if moreover the class is zero. Every address
is read back from its text and, with any faithful text form of values, from the text of the value that
holds it. Two texts that are read as addresses with a class
other than the directional one have addresses with the same bytes exactly if they differ at most in the
case of digits, and written again, what was read is the text with its digits in lower case. -/
theorem Address.text_grammar (codec : TextCodec) (faithful : codec.Faithful) :
    (∀ s a, ofText s = .ok a ↔ ∃ bs, IsTextOf s bs ∧ ofBytes bs = .ok a) ∧
    (∀ s, (∃ p, RingAddress.ofText s = .ok p) ↔
      ∃ bs, IsTextOf s bs ∧ (∃ a, ofBytes bs = .ok a) ∧ EndsInOnes bs 0) ∧
    (∀ s p, RingAddress.ofText s = .ok p ↔ ofText s = .ok (.ring p)) ∧
    (∀ a : Address, a.InRange → ofText a.text = .ok a ∧
      (codec.read (codec.write (.string a.text))).map Value.readAddress = some (.ok a)) ∧
    (∀ p : RingAddress, RingAddress.ofText p.text = .ok p ∧
      (codec.read (codec.write (.string p.text))).map Value.readPosition = some (.ok p)) ∧
    (∀ s t a b, ofText s = .ok a → ofText t = .ok b → a.addressClass ≠ .directional →
      b.addressClass ≠ .directional → (a.toBytes = b.toBytes ↔ SameUpToCase s.toList t.toList)) ∧
    (∀ s a, ofText s = .ok a → a.addressClass ≠ .directional →
      ∃ ds, s.toList = textStart.toList ++ ds ∧
        a.text.toList = textStart.toList ++ ds.map Char.toLower) := by
  refine ⟨fun s a => ofText_eq_ok_iff_isTextOf, fun s => RingAddress.exists_ofText_iff,
    fun s p => RingAddress.ofText_eq_ok_iff, fun a valid => ⟨ofText_text valid, ?_⟩,
    fun p => ⟨p.ofText_text, ?_⟩, ?_, ?_⟩
  · rw [faithful _ (.string _), Option.map_some, Value.readAddress_string, ofText_text valid]
    rfl
  · rw [faithful _ (.string _), Option.map_some, Value.readPosition_string, p.ofText_text]
    rfl
  · intro s t a b first second left right
    obtain ⟨ds, bs, text, spells, read⟩ := ofText_eq_ok_iff.mp first
    obtain ⟨es, bs', text', spells', read'⟩ := ofText_eq_ok_iff.mp second
    rw [toBytes_of_ofBytes_of_ne read left, toBytes_of_ofBytes_of_ne read' right, text, text',
      sameUpToCase_append_iff, spells.sameUpToCase_iff spells']
  · intro s a read other
    obtain ⟨ds, bs, text, spells, read'⟩ := ofText_eq_ok_iff.mp read
    refine ⟨ds, text, ?_⟩
    rw [text_toList, toBytes_of_ofBytes_of_ne read' other, spells.encode_eq]

def RingAddress.ten : RingAddress := ⟨10, rfl⟩

def RingAddress.tenUpper : String := "ringmesh:node:000000000000000000000000000000000000000A"

theorem Address.text_grammar_ten :
    (∃ bs, IsTextOf RingAddress.tenUpper bs ∧ EndsInOnes bs 0) ∧
    SameUpToCase RingAddress.tenUpper.toList RingAddress.ten.text.toList ∧
    RingAddress.tenUpper.toList ≠ RingAddress.ten.text.toList ∧
    Value.compactCodec.Faithful ∧ stillFlood.InRange ∧
    (Value.compactCodec.read (Value.compactCodec.write (.string stillFlood.text))).map
      Value.readAddress = some (.ok stillFlood) := by
  obtain ⟨-, position, ring, back, -, case, -⟩ :=
    text_grammar Value.compactCodec Value.faithful_compactCodec
  have read : RingAddress.ofText RingAddress.tenUpper = .ok RingAddress.ten := by decide +kernel
  have first := (ring _ _).mp read
  have second := (ring _ _).mp RingAddress.ten.ofText_text
  have valid : stillFlood.InRange := Single.inUnit_iff.mp (by decide)
  obtain ⟨bs, text, -, zero⟩ := (position _).mp ⟨_, read⟩
  exact ⟨⟨bs, text, zero⟩, (case _ _ _ _ first second nofun nofun).mp rfl, by decide +kernel,
    Value.faithful_compactCodec, valid, (back _ valid).2⟩

end RingOverlay
