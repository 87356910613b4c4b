import RingOverlay.Proofs.Address.Text
import RingOverlay.Proofs.Packet.Codec
/-!
Floods as destinations. A flood made of a probability that is a number can be read back from its bytes,
its text and any packet to it. A probability that is no number is kept as it is, and readers refuse it.
-/

set_option autoImplicit false
set_option relaxedAutoImplicit false

namespace RingOverlay

open BigEndian

namespace Packet

variable {p : Packet}

private theorem part_append {front middle back : Bytes} {start length : Nat}
    (start_eq : front.length = start) (length_eq : middle.length = length) :
    part (front ++ (middle ++ back)) start length = middle := by
  rw [part, List.drop_left' start_eq, List.take_left' length_eq]

theorem part_source (p : Packet) : part p.encode 8 20 = p.source.toBytes := by
  have fields : p.encode = ([version, p.delivery.code, p.payloadType, 0] ++ digits 2 p.hops.toNat ++
      digits 2 p.ttl.toNat) ++ (p.source.toBytes ++ (p.destination.toBytes ++ p.payload)) := by
    simp only [encode, List.append_assoc]
  rw [fields]
  refine part_append ?_ (AddressBits.length_toBytes _)
  simp [length_digits]

theorem part_destination (p : Packet) : part p.encode 28 20 = p.destination.toBytes := by
  have source : p.source.toBytes.length = 20 := AddressBits.length_toBytes _
  have fields : p.encode = ([version, p.delivery.code, p.payloadType, 0] ++ digits 2 p.hops.toNat ++
      digits 2 p.ttl.toNat ++ p.source.toBytes) ++ (p.destination.toBytes ++ p.payload) := by
    simp only [encode, List.append_assoc]
  rw [fields]
  refine part_append ?_ (AddressBits.length_toBytes _)
  simp [length_digits, source]

theorem decode_of_refused {e : AddressError} (refused : Address.ofBytes p.destination.toBytes = .error e) :
    decode p.encode = .error (.address e) := by
  have source : p.source.toBytes.length = 20 := AddressBits.length_toBytes _
  have destination : p.destination.toBytes.length = 20 := AddressBits.length_toBytes _
  refine decode_of_firstFault (.destination ?_ rfl ?_ ?_)
  · simp only [encode, List.length_append, length_digits, source, destination, List.length_cons]
    omega
  · rw [part_source]
    exact endsInOnes_toBytes_iff.mpr p.source.classOf_bits
  · rw [part_destination]
    exact refused

theorem exists_decode_flood {a : FloodAddress} (unit : a.probability.InUnitInterval)
    (destination : p.destination = .flood a) : ∃ q, decode p.encode = .ok q ∧ p.same q = true := by
  have valid : p.destination.InRange := by
    rw [destination]
    exact unit
  have alike : p.destination.same p.destination = true := by
    rw [destination]
    simp [Address.same, Single.eq, Single.isNaN_of_inUnit (Single.inUnit_iff.mpr unit)]
  exact ⟨p, decode_encode valid, Bool.and_eq_true_iff.mpr ⟨alike, decide_eq_true rfl⟩⟩

end Packet

namespace FloodAddress

variable {a : FloodAddress}

theorem ofBytes_written (unit : a.probability.InUnitInterval) :
    FloodAddress.ofBytes (Address.flood a).toBytes = .ok a :=
  ofBytes_toBytes_iff.mpr ⟨Single.inUnit_iff.mpr unit, rfl⟩

theorem ofBytes_of_not_inUnit (outside : a.probability.inUnit = false) :
    FloodAddress.ofBytes (Address.flood a).toBytes =
      .error (.malformed (.floodOutOfRange a.probability)) := by
  have written : (Address.flood a).toBytes = a.toAddressBits.toBytes := rfl
  rw [written, FloodAddress.ofBytes, AddressBits.readClass_toBytes, if_pos a.classOf_toAddressBits]
  simp only [bind, Except.bind, leading_toAddressBits, outside]
  rfl

theorem address_ofBytes_of_not_inUnit (outside : a.probability.inUnit = false) :
    Address.ofBytes (Address.flood a).toBytes =
      .error (.malformed (.floodOutOfRange a.probability)) := by
  have written : (Address.flood a).toBytes = a.toAddressBits.toBytes := rfl
  have tag : AddressClass.ofTag? a.toAddressBits.classOf = some .flood := by
    rw [a.classOf_toAddressBits]
    rfl
  have refused := ofBytes_of_not_inUnit outside
  rw [written] at refused ⊢
  rw [Address.ofBytes_toBytes, tag]
  simp only [Address.ofClassBytes, refused]
  rfl

end FloodAddress

/-- Make a flood of any bit pattern and flag. If the pattern stands for a number, an infinity included,
the probability is that number if it lies in the unit interval, and else the end on its side; bytes and
text are read back as the flood, and each packet to it as an equal packet. If it stands for no number,
it is kept, and bytes, text and packets are refused for it. -/
theorem Address.clamped_flood_travels (firstHop : Bool) (x : Single) :
    let a := FloodAddress.ofProbability firstHop x
    (x.isNaN = false →
      a.probability.InUnitInterval ∧
      a.probability = (if x.inUnit then x else if x.negative then .zero else .one) ∧
      FloodAddress.ofBytes (flood a).toBytes = .ok a ∧ ofBytes (flood a).toBytes = .ok (flood a) ∧
      ofText (flood a).text = .ok (flood a) ∧
      ∀ p : Packet, p.destination = flood a →
        ∃ q, Packet.decode p.encode = .ok q ∧ p.same q = true) ∧
    (x.isNaN = true →
      ¬ a.probability.InUnitInterval ∧ a.probability = x ∧
      FloodAddress.ofBytes (flood a).toBytes = .error (.malformed (.floodOutOfRange x)) ∧
      ofBytes (flood a).toBytes = .error (.malformed (.floodOutOfRange x)) ∧
      ofText (flood a).text = .error (.malformed (.floodOutOfRange x)) ∧
      ∀ p : Packet, p.destination = flood a →
        Packet.decode p.encode = .error (.address (.malformed (.floodOutOfRange x)))) := by
  intro a
  have kept : a.probability = x.clampUnit := rfl
  refine ⟨fun number => ?_, fun nan => ?_⟩
  · have unit : a.probability.InUnitInterval := Single.inUnitInterval_clampUnit number
    have read : ofBytes (flood a).toBytes = .ok (flood a) := ofBytes_written (a := flood a) unit
    refine ⟨unit, ?_, FloodAddress.ofBytes_written unit, read, (ofText_textOfBits _).trans read, ?_⟩
    · rw [kept]
      cases inside : x.inUnit with
      | true => exact Single.clampUnit_of_inUnit inside
      | false => exact Single.clampUnit_of_not_inUnit number inside
    · exact fun p destination => Packet.exists_decode_flood unit destination
  · have same : a.probability = x := Single.clampUnit_of_isNaN nan
    have outside : a.probability.inUnit = false := by
      rw [same]
      exact Single.inUnit_of_isNaN nan
    have refused := FloodAddress.address_ofBytes_of_not_inUnit outside
    rw [same] at refused
    refine ⟨?_, same, ?_, refused, (ofText_textOfBits _).trans refused, fun p destination => ?_⟩
    · rw [← Single.inUnit_iff, outside]
      exact Bool.false_ne_true
    · rw [FloodAddress.ofBytes_of_not_inUnit outside, same]
    · rw [← destination] at refused
      exact Packet.decode_of_refused refused

def Packet.flooding (bits : BitVec 32) : Packet :=
  { leftward with destination := .flood (.ofProbability true ⟨bits⟩) }

/-- Minus a half becomes zero, and a packet to it can be read back. A pattern that is no number makes a
packet that is refused. -/
theorem Address.clamped_flood_travels_belowZero :
    (FloodAddress.ofProbability true ⟨0xbf000000⟩).probability = .zero ∧
    (∃ q, Packet.decode (Packet.flooding 0xbf000000).encode = .ok q ∧
      (Packet.flooding 0xbf000000).same q = true) ∧
    Packet.decode (Packet.flooding 0x7f800001).encode =
      .error (.address (.malformed (.floodOutOfRange ⟨0x7f800001⟩))) := by
  obtain ⟨number, -⟩ := clamped_flood_travels true ⟨0xbf000000⟩
  obtain ⟨-, clamped, -, -, -, travels⟩ := number (by decide)
  obtain ⟨-, nan⟩ := clamped_flood_travels true ⟨0x7f800001⟩
  obtain ⟨-, -, -, -, -, refused⟩ := nan (by decide)
  exact ⟨clamped, travels _ rfl, refused _ rfl⟩

/-- The constructor makes a flood of a pattern that is no number whose probability is not in the unit
interval, and whose bytes, text and packets every reader refuses. -/
theorem Address.flood_of_no_number_refused :
    let a := FloodAddress.ofProbability true ⟨0x7fc00000⟩
    ¬ a.probability.InUnitInterval ∧ (∀ d, ofBytes (flood a).toBytes ≠ .ok d) ∧
    (∀ d, ofText (flood a).text ≠ .ok d) ∧
    ∀ q, Packet.decode (Packet.flooding 0x7fc00000).encode ≠ .ok q := by
  intro a
  have outside : a.probability.inUnit = false := by decide
  have refused := FloodAddress.address_ofBytes_of_not_inUnit outside
  have unread : ofText (flood a).text = ofBytes (flood a).toBytes := ofText_textOfBits _
  have undecoded := Packet.decode_of_refused (p := Packet.flooding 0x7fc00000) refused
  refine ⟨?_, fun d read => ?_, fun d read => ?_, fun q read => ?_⟩
  · rw [← Single.inUnit_iff, outside]
    exact Bool.false_ne_true
  · cases refused.symm.trans read
  · cases refused.symm.trans (unread.symm.trans read)
  · cases undecoded.symm.trans read

end RingOverlay
