import RingOverlay.Message.NodeInfo
/-!
Local discovery's messages: the query that asks nearby nodes to describe themselves, and the reply.
-/

set_option autoImplicit false
set_option relaxedAutoImplicit false

namespace RingOverlay

def discoveryMethod : String := "LocalCO.GetInformation"

structure DiscoveryQuery where
  method : String
  deriving DecidableEq, Repr

namespace DiscoveryQuery

instance : Inhabited DiscoveryQuery := ⟨⟨discoveryMethod⟩⟩

def toValue (q : DiscoveryQuery) : Value := .record [("method", .string q.method)]

def shape : RecordShape DiscoveryQuery where
  name := "DiscoveryQuery"
  blank := default
  fields := [⟨"method", true, fun q v => (fun s => { q with method := s }) <$> v.readString⟩]
  surplus := false

def ofValue (v : Value) : Except ShapeError DiscoveryQuery := shape.read v

end DiscoveryQuery

structure DiscoveryReply where
  address : RingAddress
  realm : String
  transports : List Transport
  deriving DecidableEq, Repr

namespace DiscoveryReply

instance : Inhabited DiscoveryReply := ⟨⟨default, "", []⟩⟩

def toValue (r : DiscoveryReply) : Value :=
  .record
    [("address", .string r.address.text), ("namespace", .string r.realm),
     ("tas", .list (r.transports.map Transport.toValue))]

def shape : RecordShape DiscoveryReply where
  name := "DiscoveryReply"
  blank := default
  fields :=
    [⟨"address", true, fun r v => (fun a => { r with address := a }) <$> v.readPosition⟩,
     ⟨"namespace", true, fun r v => (fun s => { r with realm := s }) <$> v.readString⟩,
     ⟨"tas", false, fun r v => (fun ts => { r with transports := ts }) <$> v.readList Transport.ofValue⟩]
  surplus := false

def ofValue (v : Value) : Except ShapeError DiscoveryReply := shape.read v

end DiscoveryReply

end RingOverlay
