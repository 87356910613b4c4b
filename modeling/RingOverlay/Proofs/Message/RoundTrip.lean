import RingOverlay.Message.ConnectRequest
import RingOverlay.Message.Discovery
import RingOverlay.Proofs.Address.Text
/-!
Messages that are read back from their values. The value of a message has an entry for each of its
fields, and every field is read as what was written to it.
-/

set_option autoImplicit false
set_option relaxedAutoImplicit false

namespace RingOverlay

namespace Value

@[simp]
theorem readString_string (s : String) : (string s).readString = .ok s := rfl

@[simp]
theorem readPosition_text (a : RingAddress) : (string a.text).readPosition = .ok a := by
  rw [readPosition, readString_string]
  simp only [bind, Except.bind, RingAddress.ofText_text, Except.mapError]

theorem readList_map {α : Type} {item : Value → Except ShapeError α} {write : α → Value}
    (round : ∀ x, item (write x) = .ok x) (xs : List α) :
    (list (xs.map write)).readList item = .ok xs := by
  rw [readList]
  induction xs with
  | nil => rfl
  | cons x xs ih =>
    rw [List.map_cons, List.mapM_cons, round, ih]
    rfl

end Value

@[simp]
theorem Transport.ofValue_toValue (t : Transport) : Transport.ofValue t.toValue = .ok t := rfl

@[simp]
theorem NodeInfo.ofValue_toValue (n : NodeInfo) : NodeInfo.ofValue n.toValue = .ok n := by
  have transports := Value.readList_map Transport.ofValue_toValue n.transports
  simp [ofValue, toValue, RecordShape.read, RecordShape.readEntries, RecordShape.storeEntry, shape,
    transports, bind, Except.bind, pure, Except.pure]

theorem ConnectRequest.ofValue_toValue (m : ConnectRequest) : ofValue m.toValue = .ok m := by
  have neighbors := Value.readList_map NodeInfo.ofValue_toValue m.neighbors
  simp [ofValue, toValue, RecordShape.read, RecordShape.readEntries, RecordShape.storeEntry, shape,
    neighbors, bind, Except.bind, pure, Except.pure]

theorem DiscoveryQuery.ofValue_toValue (q : DiscoveryQuery) : ofValue q.toValue = .ok q := rfl

theorem DiscoveryReply.ofValue_toValue (r : DiscoveryReply) : ofValue r.toValue = .ok r := by
  have transports := Value.readList_map Transport.ofValue_toValue r.transports
  simp [ofValue, toValue, RecordShape.read, RecordShape.readEntries, RecordShape.storeEntry, shape,
    transports, bind, Except.bind, pure, Except.pure]

end RingOverlay
