import RingOverlay.Packet.Codec
import RingOverlay.Proofs.Address.Codec
/-!
Reading packets inverts writing them. The bytes that are a packet are described by the fields of the
header, and any other byte string is refused for its first fault.
-/

set_option autoImplicit false
set_option relaxedAutoImplicit false

namespace RingOverlay.Packet

open BigEndian

variable {bs : Bytes} {p : Packet}

structure IsPacket (bs : Bytes) : Prop where
  length : 48 ≤ bs.length
  version : bs[0]? = some 1
  source : EndsInOnes (part bs 8 20) 0
  destination : ∃ a, Address.ofBytes (part bs 28 20) = .ok a
  delivery : bs[1]? = some 0 ∨ bs[1]? = some 1 ∨ bs[1]? = some 2

/-- The first fault of a byte string, where the length, the version, the source, the destination and
the delivery mode are checked in this order. -/
inductive FirstFault (bs : Bytes) : PacketError → Prop
  | length (short : bs.length < 48) : FirstFault bs (.truncated 48 bs.length)
  | version {v : UInt8} (length : 48 ≤ bs.length) (found : bs[0]? = some v) (other : v ≠ 1) :
    FirstFault bs (.unsupportedVersion v)
  | source {n : Nat} (length : 48 ≤ bs.length) (version : bs[0]? = some 1)
    (tag : EndsInOnes (part bs 8 20) n) (other : n ≠ 0) :
    FirstFault bs (.address (.wrongClass 0 n))
  | destination {e : AddressError} (length : 48 ≤ bs.length) (version : bs[0]? = some 1)
    (source : EndsInOnes (part bs 8 20) 0) (refused : Address.ofBytes (part bs 28 20) = .error e) :
    FirstFault bs (.address e)
  | delivery {a : Address} {c : UInt8} (length : 48 ≤ bs.length) (version : bs[0]? = some 1)
    (source : EndsInOnes (part bs 8 20) 0) (destination : Address.ofBytes (part bs 28 20) = .ok a)
    (found : bs[1]? = some c) (other : 2 < c) :
    FirstFault bs (.unknownDelivery c)

private theorem length_part {start len : Nat} (inside : start + len ≤ bs.length) :
    (part bs start len).length = len := by
  rw [part, List.length_take, List.length_drop]
  omega

/-- What the header and the payload say, once every check has passed. -/
def assemble (bs : Bytes) (source : RingAddress) (destination : Address) (delivery : DeliveryMode) :
    Packet where
  hops := UInt16.ofNat (value (part bs 4 2))
  ttl := UInt16.ofNat (value (part bs 6 2))
  source
  destination
  delivery
  payloadType := bs.getD 2 0
  payload := bs.drop headerLength

private theorem decode_eq (bs : Bytes) : decode bs =
    if bs.length < headerLength then .error (.truncated headerLength bs.length)
    else if bs.getD 0 0 ≠ version then .error (.unsupportedVersion (bs.getD 0 0))
    else do
      let source ← (RingAddress.ofBytes (part bs 8 20)).mapError .address
      let destination ← (Address.ofBytes (part bs 28 20)).mapError .address
      let delivery ← readDelivery (bs.getD 1 0)
      return assemble bs source destination delivery := by
  unfold decode
  split
  · rfl
  · split <;> rfl

private theorem getD_of_getElem? {b : UInt8} {i : Nat} (found : bs[i]? = some b) :
    bs.getD i 0 = b := by
  rw [List.getD_eq_getElem?_getD, found, Option.getD_some]

private theorem decode_of_current (long : 48 ≤ bs.length) (current : bs[0]? = some 1) :
    decode bs = (do
      let source ← (RingAddress.ofBytes (part bs 8 20)).mapError .address
      let destination ← (Address.ofBytes (part bs 28 20)).mapError .address
      let delivery ← readDelivery (bs.getD 1 0)
      return assemble bs source destination delivery) := by
  have found : bs.getD 0 0 = version := getD_of_getElem? current
  have enough : ¬ bs.length < headerLength := Nat.not_lt.mpr long
  rw [decode_eq, if_neg enough, if_neg (not_not.mpr found)]

theorem readDelivery_code (m : DeliveryMode) : readDelivery m.code = .ok m := by
  cases m <;> rfl

private theorem mode_or_large (c : UInt8) : (c = 0 ∨ c = 1 ∨ c = 2) ∨ 2 < c := by
  rw [UInt8.lt_iff_toNat_lt]
  simp only [← UInt8.toNat_inj]
  change (c.toNat = 0 ∨ c.toNat = 1 ∨ c.toNat = 2) ∨ 2 < c.toNat
  omega

theorem readDelivery_of_lt {c : UInt8} (other : 2 < c) :
    readDelivery c = .error (.unknownDelivery c) := by
  have large : 2 < c.toNat := UInt8.lt_iff_toNat_lt.mp other
  have none_found : DeliveryMode.ofCode? c = none := by
    have zero : c ≠ 0 := by
      rintro rfl
      exact absurd large (by decide)
    have one : c ≠ 1 := by
      rintro rfl
      exact absurd large (by decide)
    have two : c ≠ 2 := by
      rintro rfl
      exact absurd large (by decide)
    rw [DeliveryMode.ofCode?, if_neg zero, if_neg one, if_neg two]
  rw [readDelivery, none_found]

private theorem source_of_endsInOnes {src : Bytes} {n : Nat} (length : src.length = 20)
    (tag : EndsInOnes src n) :
    (n = 0 ∧ ∃ a : RingAddress, RingAddress.ofBytes src = .ok a ∧ src = a.toBytes) ∨
      (n ≠ 0 ∧ RingAddress.ofBytes src = .error (.wrongClass 0 n)) := by
  obtain ⟨b, written⟩ := AddressBits.exists_toBytes length
  rw [written] at tag ⊢
  have class_eq : b.classOf = n := endsInOnes_toBytes_iff.mp tag
  by_cases zero : n = 0
  · have even : b.getLsbD 0 = false := (AddressBits.classOf_eq_iff.mp (class_eq.trans zero)).2
    exact Or.inl ⟨zero, ⟨b, even⟩, RingAddress.ofBytes_toBytes_iff.mpr rfl, rfl⟩
  · have other : b.classOf ≠ AddressClass.ring.tag := by
      rw [class_eq]
      exact zero
    refine Or.inr ⟨zero, ?_⟩
    rw [RingAddress.ofBytes, AddressBits.readClass_toBytes, if_neg other, class_eq]
    rfl

theorem decode_of_firstFault {e : PacketError} (fault : FirstFault bs e) :
    decode bs = .error e := by
  cases fault with
  | length short =>
    have few : bs.length < headerLength := short
    rw [decode_eq, if_pos few]
    rfl
  | version length found other =>
    have enough : ¬ bs.length < headerLength := Nat.not_lt.mpr length
    have stranger : bs.getD 0 0 ≠ version := by
      rw [getD_of_getElem? found]
      exact other
    rw [decode_eq, if_neg enough, if_pos stranger, getD_of_getElem? found]
  | source length version tag other =>
    have twenty : (part bs 8 20).length = 20 := length_part (by omega)
    rcases source_of_endsInOnes twenty tag with ⟨zero, -⟩ | ⟨-, refused⟩
    · exact absurd zero other
    · rw [decode_of_current length version, refused]
      rfl
  | destination length version source refused =>
    have twenty : (part bs 8 20).length = 20 := length_part (by omega)
    rcases source_of_endsInOnes twenty source with ⟨-, a, read, -⟩ | ⟨nonzero, -⟩
    · rw [decode_of_current length version, read, refused]
      rfl
    · exact absurd rfl nonzero
  | delivery length version source destination found other =>
    have twenty : (part bs 8 20).length = 20 := length_part (by omega)
    rcases source_of_endsInOnes twenty source with ⟨-, a, read, -⟩ | ⟨nonzero, -⟩
    · rw [decode_of_current length version, read, destination, getD_of_getElem? found,
        readDelivery_of_lt other]
      rfl
    · exact absurd rfl nonzero

theorem decode_of_isPacket (valid : IsPacket bs) : ∃ source destination delivery,
    decode bs = .ok (assemble bs source destination delivery) ∧ part bs 8 20 = source.toBytes ∧
      Address.ofBytes (part bs 28 20) = .ok destination ∧ bs[1]? = some delivery.code := by
  obtain ⟨length, version, source, ⟨destination, accepted⟩, delivery⟩ := valid
  have twenty : (part bs 8 20).length = 20 := length_part (by omega)
  obtain ⟨mode, found⟩ : ∃ m : DeliveryMode, bs[1]? = some m.code := by
    rcases delivery with zero | one | two
    · exact ⟨.exact, zero⟩
    · exact ⟨.last, one⟩
    · exact ⟨.nearest, two⟩
  rcases source_of_endsInOnes twenty source with ⟨-, a, read, written⟩ | ⟨nonzero, -⟩
  · refine ⟨a, destination, mode, ?_, written, accepted, found⟩
    rw [decode_of_current length version, read, accepted, getD_of_getElem? found,
      readDelivery_code]
    rfl
  · exact absurd rfl nonzero

theorem isPacket_or_firstFault (bs : Bytes) : IsPacket bs ∨ ∃ e, FirstFault bs e := by
  rcases Nat.lt_or_ge bs.length 48 with short | length
  · exact Or.inr ⟨_, .length short⟩
  obtain ⟨v, version⟩ : ∃ v, bs[0]? = some v := ⟨_, List.getElem?_eq_getElem (by omega)⟩
  obtain ⟨c, mode⟩ : ∃ c, bs[1]? = some c := ⟨_, List.getElem?_eq_getElem (by omega)⟩
  by_cases current : v = 1
  · rw [current] at version
    have twenty : (part bs 8 20).length = 20 := length_part (by omega)
    obtain ⟨b, written⟩ := AddressBits.exists_toBytes twenty
    have tag : EndsInOnes (part bs 8 20) b.classOf := by
      rw [written]
      exact endsInOnes_toBytes_iff.mpr rfl
    by_cases zero : b.classOf = 0
    · rw [zero] at tag
      cases destination : Address.ofBytes (part bs 28 20) with
      | error e => exact Or.inr ⟨_, .destination length version tag destination⟩
      | ok a =>
        rcases mode_or_large c with known | large
        · refine Or.inl ⟨length, version, tag, ⟨a, destination⟩, ?_⟩
          simpa [mode] using known
        · exact Or.inr ⟨_, .delivery length version tag destination mode large⟩
    · exact Or.inr ⟨_, .source length version tag zero⟩
  · exact Or.inr ⟨_, .version length version current⟩

theorem exists_decode_iff : (∃ p, decode bs = .ok p) ↔ IsPacket bs := by
  constructor
  · rintro ⟨p, read⟩
    rcases isPacket_or_firstFault bs with valid | ⟨e, fault⟩
    · exact valid
    · rw [decode_of_firstFault fault] at read
      cases read
  · intro valid
    obtain ⟨_, _, _, read, _⟩ := decode_of_isPacket valid
    exact ⟨_, read⟩

theorem decode_eq_error_iff {e : PacketError} : decode bs = .error e ↔ FirstFault bs e := by
  constructor
  · intro refused
    rcases isPacket_or_firstFault bs with valid | ⟨found, fault⟩
    · obtain ⟨p, read⟩ := exists_decode_iff.mpr valid
      rw [refused] at read
      cases read
    · have same := decode_of_firstFault fault
      rw [refused] at same
      rw [Except.error.inj same]
      exact fault
  · exact decode_of_firstFault

section Layout

private theorem drop_eq_part (bs : Bytes) (start len : Nat) :
    bs.drop start = part bs start len ++ bs.drop (start + len) := by
  rw [part, ← List.drop_drop, List.take_append_drop]

private theorem modify_append_right (f : UInt8 → UInt8) (front back : Bytes) (i : Nat) :
    (front ++ back).modify (front.length + i) f = front ++ back.modify i f := by
  induction front with
  | nil => simp
  | cons b front ih =>
    have next : (b :: front).length + i = (front.length + i) + 1 := by
      rw [List.length_cons]
      omega
    rw [List.cons_append, next, List.modify_succ_cons, ih, List.cons_append]

private theorem modify_append_left (f : UInt8 → UInt8) {front : Bytes} (back : Bytes) {i : Nat}
    (inside : i < front.length) : (front ++ back).modify i f = front.modify i f ++ back := by
  induction front generalizing i with
  | nil => cases inside
  | cons b front ih =>
    cases i with
    | zero => rfl
    | succ i =>
      have within : i < front.length := Nat.lt_of_succ_lt_succ inside
      rw [List.cons_append, List.modify_succ_cons, ih within, List.modify_succ_cons,
        List.cons_append]

private def front (bs : Bytes) (a b c d : UInt8) : Bytes :=
  [a, b, c, d] ++ (part bs 4 2 ++ (part bs 6 2 ++ part bs 8 20))

private theorem length_front (long : 48 ≤ bs.length) (a b c d : UInt8) :
    (front bs a b c d).length = 28 := by
  have hops : (part bs 4 2).length = 2 := length_part (by omega)
  have ttl : (part bs 6 2).length = 2 := length_part (by omega)
  have source : (part bs 8 20).length = 20 := length_part (by omega)
  simp only [front, List.length_append, List.length_cons, List.length_nil, hops, ttl, source]

private theorem eq_fields (long : 48 ≤ bs.length) :
    ∃ a b c d, bs = front bs a b c d ++ (part bs 28 20 ++ bs.drop 48) := by
  match bs, long with
  | a :: b :: c :: d :: rest, _ =>
    refine ⟨a, b, c, d, ?_⟩
    rw [front, List.append_assoc, List.append_assoc, List.append_assoc, ← drop_eq_part,
      ← drop_eq_part, ← drop_eq_part, ← drop_eq_part]
    rfl

private theorem digits_toNat_ofNat_value {field : Bytes} (length : field.length = 2) :
    digits 2 (UInt16.ofNat (value field)).toNat = field := by
  have bound : value field < 2 ^ 16 := by
    have below := value_lt field
    rw [length] at below
    exact below
  have same : (UInt16.ofNat (value field)).toNat = value field := UInt16.toNat_ofNat_of_lt bound
  have back := digits_value field
  rw [same]
  rwa [length] at back

private theorem ofNat_value_digits (n : UInt16) : UInt16.ofNat (value (digits 2 n.toNat)) = n := by
  have bound : n.toNat < 256 ^ 2 := n.toNat_lt
  rw [value_digits, Nat.mod_eq_of_lt bound, UInt16.ofNat_toNat]

theorem encode_of_decode (read : decode bs = .ok p) : p.encode =
    if p.destination.addressClass = .directional then (bs.set 3 0).modify 32 (· &&& 0x1f)
    else bs.set 3 0 := by
  obtain ⟨source, destination, delivery, found, at_source, at_destination, mode⟩ :=
    decode_of_isPacket (exists_decode_iff.mp ⟨p, read⟩)
  obtain ⟨long, version, -⟩ := exists_decode_iff.mp ⟨p, read⟩
  obtain rfl := Except.ok.inj (read.symm.trans found)
  obtain ⟨a, b, c, d, fields⟩ := eq_fields long
  have first : a = 1 := by
    rw [fields] at version
    exact Option.some.inj version
  have second : b = delivery.code := by
    rw [fields] at mode
    exact Option.some.inj mode
  have third : bs.getD 2 0 = c := congrArg (List.getD · 2 0) fields
  have cleared : bs.set 3 0 = front bs a b c 0 ++ (part bs 28 20 ++ bs.drop 48) :=
    congrArg (List.set · 3 0) fields
  have spelled : (assemble bs source destination delivery).encode =
      front bs a b c 0 ++ (destination.toBytes ++ bs.drop 48) := by
    have hops : (part bs 4 2).length = 2 := length_part (by omega)
    have ttl : (part bs 6 2).length = 2 := length_part (by omega)
    simp only [encode, assemble, front, List.append_assoc, digits_toNat_ofNat_value hops,
      digits_toNat_ofNat_value ttl, third, ← at_source, first, second]
    rfl
  rw [spelled, Address.toBytes_of_ofBytes at_destination, cleared]
  change _ = if destination.addressClass = .directional then _ else _
  split
  · have twenty : (part bs 28 20).length = 20 := length_part (by omega)
    have place : 32 = (front bs a b c 0).length + 4 := by rw [length_front long]
    rw [place, modify_append_right, modify_append_left]
    omega
  · rfl

private theorem encode_fields (p : Packet) : p.encode = [version, p.delivery.code, p.payloadType, 0] ++
    (digits 2 p.hops.toNat ++ (digits 2 p.ttl.toNat ++ (p.source.toBytes ++
      (p.destination.toBytes ++ p.payload)))) := by
  simp only [encode, List.append_assoc]

theorem decode_encode (valid : p.destination.InRange) : decode p.encode = .ok p := by
  have hops := length_digits 2 p.hops.toNat
  have ttl := length_digits 2 p.ttl.toNat
  have source : p.source.toBytes.length = 20 := AddressBits.length_toBytes _
  have destination : p.destination.toBytes.length = 20 := AddressBits.length_toBytes _
  have front : [version, p.delivery.code, p.payloadType, 0].length = 4 := rfl
  have fields := encode_fields p
  have from_hops := congrArg (List.drop 4) fields
  rw [List.drop_left' front] at from_hops
  have from_ttl := congrArg (List.drop 2) from_hops
  rw [List.drop_drop, List.drop_left' hops] at from_ttl
  have from_source := congrArg (List.drop 2) from_ttl
  rw [List.drop_drop, List.drop_left' ttl] at from_source
  have from_destination := congrArg (List.drop 20) from_source
  rw [List.drop_drop, List.drop_left' source] at from_destination
  have from_payload := congrArg (List.drop 20) from_destination
  rw [List.drop_drop, List.drop_left' destination] at from_payload
  have at_hops : part p.encode 4 2 = digits 2 p.hops.toNat := by
    rw [part, from_hops, List.take_left' hops]
  have at_ttl : part p.encode 6 2 = digits 2 p.ttl.toNat := by
    rw [part, from_ttl, List.take_left' ttl]
  have at_source : part p.encode 8 20 = p.source.toBytes := by
    rw [part, from_source, List.take_left' source]
  have at_destination : part p.encode 28 20 = p.destination.toBytes := by
    rw [part, from_destination, List.take_left' destination]
  have long : 48 ≤ p.encode.length := by
    simp only [fields, List.length_append, List.length_cons, hops, ttl, source, destination]
    omega
  have current : p.encode[0]? = some 1 := congrArg (·[0]?) fields
  have mode : p.encode.getD 1 0 = p.delivery.code := congrArg (List.getD · 1 0) fields
  have kind : p.encode.getD 2 0 = p.payloadType := congrArg (List.getD · 2 0) fields
  have read : RingAddress.ofBytes p.source.toBytes = .ok p.source :=
    RingAddress.ofBytes_toBytes_iff.mpr rfl
  rw [decode_of_current long current, at_source, read, at_destination, Address.ofBytes_written valid,
    mode, readDelivery_code]
  change Except.ok (assemble _ _ _ _) = _
  simp only [assemble, at_hops, at_ttl, ofNat_value_digits, kind, headerLength, from_payload]

end Layout

section Checked

def part? (bs : Bytes) (start length : Nat) : Option Bytes :=
  if start + length ≤ bs.length then some (part bs start length) else none

/-- Reads a packet where every access is checked: there is no result if one of them lies outside. -/
def decodeChecked (bs : Bytes) : Option (Except PacketError Packet) := do
  if bs.length < headerLength then return .error (.truncated headerLength bs.length)
  let current ← bs[0]?
  let mode ← bs[1]?
  let payloadType ← bs[2]?
  let hops ← part? bs 4 2
  let ttl ← part? bs 6 2
  let origin ← part? bs 8 20
  let target ← part? bs 28 20
  let payload ← part? bs headerLength (bs.length - headerLength)
  return do
    if current ≠ version then throw (.unsupportedVersion current)
    let source ← (RingAddress.ofBytes origin).mapError .address
    let destination ← (Address.ofBytes target).mapError .address
    let delivery ← readDelivery mode
    return {
      hops := UInt16.ofNat (value hops)
      ttl := UInt16.ofNat (value ttl)
      source, destination, delivery, payloadType, payload }

private theorem part?_of_le {start length : Nat} (inside : start + length ≤ bs.length) :
    part? bs start length = some (part bs start length) :=
  if_pos inside

private theorem getElem?_of_lt {i : Nat} (inside : i < bs.length) : bs[i]? = some (bs.getD i 0) := by
  rw [List.getD_eq_getElem?_getD, List.getElem?_eq_getElem inside, Option.getD_some]

theorem decodeChecked_eq (bs : Bytes) : decodeChecked bs = some (decode bs) := by
  by_cases short : bs.length < headerLength
  · rw [decodeChecked, decode_eq, if_pos short, if_pos short]
    rfl
  · have long : 48 ≤ bs.length := Nat.not_lt.mp short
    have payload : part bs headerLength (bs.length - headerLength) = bs.drop headerLength := by
      rw [part, List.take_of_length_le]
      rw [List.length_drop]
    have total : headerLength + (bs.length - headerLength) ≤ bs.length := by
      unfold headerLength
      omega
    rw [decodeChecked, if_neg short, getElem?_of_lt (i := 0) (by omega),
      getElem?_of_lt (i := 1) (by omega), getElem?_of_lt (i := 2) (by omega),
      part?_of_le (by omega), part?_of_le (by omega), part?_of_le (by omega),
      part?_of_le (by omega), part?_of_le total, payload, decode, if_neg short]
    rfl

end Checked

/-- Reading gives back the packets that were written. The bytes that are read are the packets, and
all others are refused for their first fault; writing what was read gives back every byte but the
reserved one and the bits of a directional destination that carry nothing. No access lies outside. -/
theorem decode_inverts_encode :
    (∀ p : Packet, p.destination.InRange → decode p.encode = .ok p) ∧
    (∀ bs, (∃ p, decode bs = .ok p) ↔ IsPacket bs) ∧
    (∀ bs e, decode bs = .error e ↔ FirstFault bs e) ∧
    (∀ bs p, decode bs = .ok p → p.encode =
      if p.destination.addressClass = .directional then (bs.set 3 0).modify 32 (· &&& 0x1f)
      else bs.set 3 0) ∧
    (∀ bs, decodeChecked bs = some (decode bs)) := by
  refine ⟨?_, ?_, ?_, ?_, ?_⟩
  · intro p valid
    exact decode_encode valid
  · intro bs
    exact exists_decode_iff
  · intro bs e
    exact decode_eq_error_iff
  · intro bs p read
    exact encode_of_decode read
  · intro bs
    exact decodeChecked_eq bs

def leftward : Packet where
  hops := 1
  ttl := 64
  source := default
  destination := .directional .left
  delivery := .nearest
  payloadType := 7
  payload := [1, 2]

theorem decode_inverts_encode_leftward :
    leftward.destination.InRange ∧ decode leftward.encode = .ok leftward ∧
      IsPacket leftward.encode ∧
      leftward.encode = (leftward.encode.set 3 0).modify 32 (· &&& 0x1f) := by
  have valid : leftward.destination.InRange := trivial
  have read := decode_inverts_encode.1 leftward valid
  exact ⟨valid, read, (decode_inverts_encode.2.1 _).mp ⟨_, read⟩,
    decode_inverts_encode.2.2.2.1 _ _ read⟩

end RingOverlay.Packet
