import Mathlib.Logic.Relation
import RingOverlay.Proofs.Data.Spelling
import RingOverlay.Proofs.Data.Text
import RingOverlay.Proofs.Message.RoundTrip
/-!
The spellings of messages. Every message is read back from its value and from the text of its value,
if the text form of values is a faithful one. A connect request is read from all other spellings of a
value that it is read from.
-/

set_option autoImplicit false
set_option relaxedAutoImplicit false

namespace RingOverlay

def Value.entry : Value → String → Value
  | .record es, key => (es.lookup key).getD .null
  | _, _ => .null

namespace NodeInfo

def Respells : Value → Value → Prop :=
  shape.Respells (toValue default).entry fun _ _ _ => False

theorem sets_address : (shape.fields[0]).Sets Value.readPosition
    (fun n a => { n with address := a }) NodeInfo.address :=
  ⟨fun _ _ => rfl, fun _ _ => rfl, fun _ => rfl⟩

theorem sets_transports : (shape.fields[1]).Sets (Value.readList Transport.ofValue)
    (fun n ts => { n with transports := ts }) NodeInfo.transports :=
  ⟨fun _ _ => rfl, fun _ _ => rfl, fun _ => rfl⟩

theorem mem_fields {f : RecordField NodeInfo} (member : f ∈ shape.fields) :
    f = shape.fields[0] ∨ f = shape.fields[1] := by
  simpa [shape] using member

theorem shape_lawful : shape.Lawful (toValue default).entry where
  names := by decide
  sets f member := by
    rcases mem_fields member with rfl | rfl
    · exact ⟨_, _, _, _, sets_address⟩
    · exact ⟨_, _, _, _, sets_transports⟩
  apart f hf g hg other r r' v w shown stored := by
    rcases mem_fields hf with rfl | rfl <;> rcases mem_fields hg with rfl | rfl <;>
      try exact absurd rfl other
    all_goals
      obtain ⟨x, -, rfl⟩ := Except.map_eq_ok_iff.mp stored
    · exact sets_address.shows_of_eq shown rfl
    · exact sets_transports.shows_of_eq shown rfl
  determined r r' shared := by
    obtain ⟨_, here, there⟩ := shared _ (List.getElem_mem (n := 0) (by decide))
    have address := sets_address.agree here there
    obtain ⟨_, here, there⟩ := shared _ (List.getElem_mem (n := 1) (by decide))
    have transports := sets_transports.agree here there
    cases r
    cases r'
    cases address
    cases transports
    rfl
  blanks f member := by
    rcases mem_fields member with rfl | rfl
    · exact sets_address.shows_iff.mpr (Value.readPosition_text default)
    · exact sets_transports.shows_iff.mpr rfl
  bounded := rfl

theorem ofValue_respelt {v w : Value} {n : NodeInfo} (respells : Respells v w)
    (read : ofValue v = .ok n) : ofValue w = .ok n :=
  shape_lawful.read_respelt (fun _ _ _ _ nothing => nothing.elim) respells read

end NodeInfo

namespace ConnectRequest

def FieldRespells : String → Value → Value → Prop
  | "target" => NodeInfo.Respells
  | "neighbors" => Value.ItemRespelt NodeInfo.Respells
  | _ => fun _ _ => False

def Respells : Value → Value → Prop := shape.Respells (toValue default).entry FieldRespells

theorem sets_connectionType : (shape.fields[0]).Sets Value.readString
    (fun m s => { m with connectionType := s }) ConnectRequest.connectionType :=
  ⟨fun _ _ => rfl, fun _ _ => rfl, fun _ => rfl⟩

theorem sets_target : (shape.fields[1]).Sets NodeInfo.ofValue
    (fun m n => { m with target := n }) ConnectRequest.target :=
  ⟨fun _ _ => rfl, fun _ _ => rfl, fun _ => rfl⟩

theorem sets_neighbors : (shape.fields[2]).Sets (Value.readList NodeInfo.ofValue)
    (fun m ns => { m with neighbors := ns }) ConnectRequest.neighbors :=
  ⟨fun _ _ => rfl, fun _ _ => rfl, fun _ => rfl⟩

theorem sets_token : (shape.fields[3]).Sets Value.readString
    (fun m s => { m with token := s }) ConnectRequest.token :=
  ⟨fun _ _ => rfl, fun _ _ => rfl, fun _ => rfl⟩

theorem mem_fields {f : RecordField ConnectRequest} (member : f ∈ shape.fields) :
    f = shape.fields[0] ∨ f = shape.fields[1] ∨ f = shape.fields[2] ∨ f = shape.fields[3] := by
  simpa [shape] using member

theorem shape_lawful : shape.Lawful (toValue default).entry where
  names := by decide
  sets f member := by
    rcases mem_fields member with rfl | rfl | rfl | rfl
    · exact ⟨_, _, _, _, sets_connectionType⟩
    · exact ⟨_, _, _, _, sets_target⟩
    · exact ⟨_, _, _, _, sets_neighbors⟩
    · exact ⟨_, _, _, _, sets_token⟩
  apart f hf g hg other r r' v w shown stored := by
    have kept : ∀ {h}, h ∈ shape.fields → h.name ≠ g.name → h.Shows r v → h.Shows r' v := by
      intro h among apart here
      rcases mem_fields hg with rfl | rfl | rfl | rfl <;>
        obtain ⟨x, -, rfl⟩ := Except.map_eq_ok_iff.mp stored <;>
        rcases mem_fields among with rfl | rfl | rfl | rfl
      all_goals first
        | exact absurd rfl apart
        | exact sets_connectionType.shows_of_eq here rfl
        | exact sets_target.shows_of_eq here rfl
        | exact sets_neighbors.shows_of_eq here rfl
        | exact sets_token.shows_of_eq here rfl
    exact kept hf other shown
  determined r r' shared := by
    obtain ⟨_, here, there⟩ := shared _ (List.getElem_mem (n := 0) (by decide))
    have type := sets_connectionType.agree here there
    obtain ⟨_, here, there⟩ := shared _ (List.getElem_mem (n := 1) (by decide))
    have target := sets_target.agree here there
    obtain ⟨_, here, there⟩ := shared _ (List.getElem_mem (n := 2) (by decide))
    have neighbors := sets_neighbors.agree here there
    obtain ⟨_, here, there⟩ := shared _ (List.getElem_mem (n := 3) (by decide))
    have token := sets_token.agree here there
    cases r
    cases r'
    cases type
    cases target
    cases neighbors
    cases token
    rfl
  blanks f member := by
    rcases mem_fields member with rfl | rfl | rfl | rfl
    · exact sets_connectionType.shows_iff.mpr rfl
    · exact sets_target.shows_iff.mpr (NodeInfo.ofValue_toValue default)
    · exact sets_neighbors.shows_iff.mpr rfl
    · exact sets_token.shows_iff.mpr rfl
  bounded := rfl

theorem ofValue_respelt {v w : Value} {m : ConnectRequest} (respells : Respells v w)
    (read : ofValue v = .ok m) : ofValue w = .ok m := by
  refine shape_lawful.read_respelt (fun f member v w respelt => ?_) respells read
  rcases mem_fields member with rfl | rfl | rfl | rfl
  · exact respelt.elim
  · exact sets_target.passes fun n before => NodeInfo.ofValue_respelt respelt before
  · exact sets_neighbors.passes fun ns before => Value.readList_respelt
      (fun _ _ _ respelt before => NodeInfo.ofValue_respelt respelt before) respelt before
  · exact respelt.elim

end ConnectRequest

/-- That a message is read back from what is written for it, from the value and from the text of the
value. -/
def RoundTrips {α : Type} (codec : TextCodec) (write : α → Value)
    (read : Value → Except ShapeError α) : Prop :=
  ∀ m, read (write m) = .ok m ∧ (codec.read (codec.write (write m))).map read = some (.ok m)

theorem TextCodec.Faithful.roundTrips {codec : TextCodec} (faithful : codec.Faithful) {α : Type}
    {write : α → Value} {read : Value → Except ShapeError α}
    (plain : ∀ m, (write m).Plain Value.deepest) (values : ∀ m, read (write m) = .ok m) :
    RoundTrips codec write read := by
  intro m
  refine ⟨values m, ?_⟩
  rw [faithful _ (plain m), Option.map_some, values m]

section

variable {d : Nat}

theorem Value.Plain.list_map {α : Type} {write : α → Value} (plain : ∀ x, (write x).Plain d)
    (xs : List α) : (Value.list (xs.map write)).Plain (d + 1) := by
  refine .list fun v member => ?_
  obtain ⟨x, -, rfl⟩ := List.mem_map.mp member
  exact plain x

theorem NodeInfo.plain_toValue (n : NodeInfo) : n.toValue.Plain (d + 2) := by
  refine .record (show ["address", "transports"].Pairwise (· < ·) by decide) ?_
  simp only [List.forall_mem_cons, List.not_mem_nil, false_implies, implies_true, and_true]
  exact ⟨.string _, .list_map (fun t => .string (Transport.uri t)) _⟩

theorem ConnectRequest.plain_toValue (m : ConnectRequest) : m.toValue.Plain (d + 4) := by
  refine .record (show ["connection_type", "neighbors", "target", "token"].Pairwise (· < ·) by decide) ?_
  simp only [List.forall_mem_cons, List.not_mem_nil, false_implies, implies_true, and_true]
  exact ⟨.string _, .list_map NodeInfo.plain_toValue _, m.target.plain_toValue, .string _⟩

theorem DiscoveryQuery.plain_toValue (q : DiscoveryQuery) : q.toValue.Plain (d + 1) := by
  refine .record (show ["method"].Pairwise (· < ·) by decide) ?_
  simp only [List.forall_mem_cons, List.not_mem_nil, false_implies, implies_true, and_true]
  exact .string _

theorem DiscoveryReply.plain_toValue (r : DiscoveryReply) : r.toValue.Plain (d + 2) := by
  refine .record (show ["address", "namespace", "tas"].Pairwise (· < ·) by decide) ?_
  simp only [List.forall_mem_cons, List.not_mem_nil, false_implies, implies_true, and_true]
  exact ⟨.string _, .string _, .list_map (fun t => .string (Transport.uri t)) _⟩

end

/-- A description with both of its fields, and the endpoints in a list. -/
def NodeInfo.Complete (v : Value) : Prop := ∃ address endpoints,
  v = .record [("address", .string address), ("transports", .list endpoints)]

/-- A request with all of its fields, and the neighbours in a list of complete descriptions. -/
def ConnectRequest.Complete (v : Value) : Prop := ∃ connectionType target neighbors token,
  v = .record [("connection_type", .string connectionType), ("neighbors", .list neighbors),
    ("target", target), ("token", .string token)] ∧
  ∀ n ∈ target :: neighbors, NodeInfo.Complete n

theorem ConnectRequest.complete_toValue (m : ConnectRequest) : Complete m.toValue := by
  refine ⟨_, _, _, _, rfl, fun n member => ?_⟩
  rw [← List.map_cons] at member
  obtain ⟨x, -, rfl⟩ := List.mem_map.mp member
  exact ⟨_, _, rfl⟩

theorem ConnectRequest.ofValue_respelt_all {v w : Value} {m : ConnectRequest}
    (respells : Relation.ReflTransGen Respells v w) (read : ofValue v = .ok m) : ofValue w = .ok m := by
  induction respells with
  | refl => exact read
  | tail _ last ih => exact ofValue_respelt last ih

/-- Every message is read back from its value and, with any faithful text form of values, from the text
of its value. What a connect request
is read from is written anew with all fields, is then read as the same request, and may be spelt
otherwise: with other entries that no field asks for, as lists of fields instead of records, and
without the defaults at the end of such lists, at all levels and in any combination. -/
theorem messages_round_trip (codec : TextCodec) (faithful : codec.Faithful) :
    RoundTrips codec ConnectRequest.toValue ConnectRequest.ofValue ∧
    RoundTrips codec NodeInfo.toValue NodeInfo.ofValue ∧
    RoundTrips codec DiscoveryQuery.toValue DiscoveryQuery.ofValue ∧
    RoundTrips codec DiscoveryReply.toValue DiscoveryReply.ofValue ∧
    ∀ v m, ConnectRequest.ofValue v = .ok m →
      ConnectRequest.ofValue m.toValue = .ok m ∧ ConnectRequest.Complete m.toValue ∧
      ∀ w, Relation.ReflTransGen ConnectRequest.Respells v w → ConnectRequest.ofValue w = .ok m := by
  refine ⟨faithful.roundTrips ConnectRequest.plain_toValue ConnectRequest.ofValue_toValue,
    faithful.roundTrips NodeInfo.plain_toValue NodeInfo.ofValue_toValue,
    faithful.roundTrips DiscoveryQuery.plain_toValue DiscoveryQuery.ofValue_toValue,
    faithful.roundTrips DiscoveryReply.plain_toValue DiscoveryReply.ofValue_toValue,
    fun v m read => ⟨m.ofValue_toValue, m.complete_toValue, fun w respells => ?_⟩⟩
  exact ConnectRequest.ofValue_respelt_all respells read

def somePosition : Value := .string (default : RingAddress).text

def sparseRequest : Value :=
  .record [("connection_type", .string "leaf"), ("target", .record [("address", somePosition)])]

def terseRequest : Value := .list [.string "leaf", .list [somePosition]]

theorem sparseRequest_read : ConnectRequest.ofValue sparseRequest = .ok ⟨"leaf", .bare default, [], ""⟩ := by
  simp [sparseRequest, somePosition, ConnectRequest.ofValue, NodeInfo.ofValue, ConnectRequest.shape,
    NodeInfo.shape, RecordShape.read, RecordShape.readEntries, RecordShape.storeEntry, bind, Except.bind,
    pure, Except.pure, NodeInfo.bare]
  exact ⟨rfl, rfl, rfl⟩

theorem sparseRequest_respelt : Relation.ReflTransGen ConnectRequest.Respells sparseRequest terseRequest := by
  have whole : ConnectRequest.Respells sparseRequest
      (.list [.string "leaf", .record [("address", somePosition)], .list [], .string ""]) :=
    .positional _
  have untokened : ConnectRequest.Respells
      (.list [.string "leaf", .record [("address", somePosition)], .list [], .string ""])
      (.list [.string "leaf", .record [("address", somePosition)], .list []]) :=
    .cut [.string "leaf", .record [("address", somePosition)], .list []]
      (f := ConnectRequest.shape.fields[3]) rfl rfl
  have alone : ConnectRequest.Respells
      (.list [.string "leaf", .record [("address", somePosition)], .list []])
      (.list [.string "leaf", .record [("address", somePosition)]]) :=
    .cut [.string "leaf", .record [("address", somePosition)]]
      (f := ConnectRequest.shape.fields[2]) rfl rfl
  have target : NodeInfo.Respells (.record [("address", somePosition)]) (.list [somePosition, .list []]) :=
    .positional _
  have endpointless : NodeInfo.Respells (.list [somePosition, .list []]) (.list [somePosition]) :=
    .cut [somePosition] (f := NodeInfo.shape.fields[1]) rfl rfl
  have listed : ConnectRequest.Respells
      (.list [.string "leaf", .record [("address", somePosition)]])
      (.list [.string "leaf", .list [somePosition, .list []]]) :=
    .item [.string "leaf"] [] (f := ConnectRequest.shape.fields[1]) rfl
      (by change NodeInfo.Respells _ _; exact target)
  have short : ConnectRequest.Respells
      (.list [.string "leaf", .list [somePosition, .list []]]) terseRequest :=
    .item [.string "leaf"] [] (f := ConnectRequest.shape.fields[1]) rfl
      (by change NodeInfo.Respells _ _; exact endpointless)
  exact .head whole (.head untokened (.head alone (.head listed (.single short))))

theorem messages_round_trip_terse :
    Value.compactCodec.Faithful ∧
    (Value.compactCodec.read (Value.compactCodec.write (default : DiscoveryQuery).toValue)).map
      DiscoveryQuery.ofValue = some (.ok default) ∧
    ConnectRequest.ofValue terseRequest = .ok ⟨"leaf", .bare default, [], ""⟩ := by
  obtain ⟨-, -, query, -, spellings⟩ :=
    messages_round_trip Value.compactCodec Value.faithful_compactCodec
  obtain ⟨-, -, respelt⟩ := spellings sparseRequest _ sparseRequest_read
  exact ⟨Value.faithful_compactCodec, (query default).2, respelt terseRequest sparseRequest_respelt⟩

end RingOverlay
