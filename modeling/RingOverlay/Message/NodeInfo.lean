import RingOverlay.Data.Shape
/-!
Self-descriptions of nodes: a position and the endpoints under which the node can be reached.
-/

set_option autoImplicit false
set_option relaxedAutoImplicit false

namespace RingOverlay

structure Transport where
  uri : String
  deriving DecidableEq, Repr

namespace Transport

def toValue (t : Transport) : Value := .string t.uri

def ofValue (v : Value) : Except ShapeError Transport := Transport.mk <$> v.readString

end Transport

structure NodeInfo where
  address : RingAddress
  transports : List Transport
  deriving DecidableEq, Repr

namespace NodeInfo

instance : Inhabited NodeInfo := ⟨⟨default, []⟩⟩

def bare (a : RingAddress) : NodeInfo := ⟨a, []⟩

def toValue (n : NodeInfo) : Value :=
  .record [("address", .string n.address.text), ("transports", .list (n.transports.map Transport.toValue))]

def shape : RecordShape NodeInfo where
  name := "NodeInfo"
  blank := default
  fields :=
    [⟨"address", true, fun n v => (fun a => { n with address := a }) <$> v.readPosition⟩,
     ⟨"transports", false, fun n v => (fun ts => { n with transports := ts }) <$> v.readList Transport.ofValue⟩]
  surplus := false

def ofValue (v : Value) : Except ShapeError NodeInfo := shape.read v

end NodeInfo

end RingOverlay
