import RingOverlay.Message.NodeInfo
/-!
The connect handshake's message, which serves as request and as reply. In a request the target is
the requester; in a reply it is the responder, and the neighbours are the responder's ring
neighbours nearest to the requester.
-/

set_option autoImplicit false
set_option relaxedAutoImplicit false

namespace RingOverlay

def connectMethod : String := "sys:ctm.ConnectTo"

structure ConnectRequest where
  connectionType : String
  target : NodeInfo
  neighbors : List NodeInfo
  token : String
  deriving DecidableEq, Repr

namespace ConnectRequest

instance : Inhabited ConnectRequest := ⟨⟨"", default, [], ""⟩⟩

def ofTarget (connectionType : String) (target : NodeInfo) : ConnectRequest :=
  ⟨connectionType, target, [], target.address.text⟩

def withNeighbors (r : ConnectRequest) (ns : List NodeInfo) : ConnectRequest := { r with neighbors := ns }

def withToken (r : ConnectRequest) (t : String) : ConnectRequest := { r with token := t }

def toValue (r : ConnectRequest) : Value :=
  .record
    [("connection_type", .string r.connectionType),
     ("neighbors", .list (r.neighbors.map NodeInfo.toValue)),
     ("target", r.target.toValue),
     ("token", .string r.token)]

def shape : RecordShape ConnectRequest where
  name := "ConnectRequest"
  blank := default
  fields :=
    [⟨"connection_type", true, fun r v => (fun s => { r with connectionType := s }) <$> v.readString⟩,
     ⟨"target", true, fun r v => (fun n => { r with target := n }) <$> NodeInfo.ofValue v⟩,
     ⟨"neighbors", false, fun r v => (fun ns => { r with neighbors := ns }) <$> v.readList NodeInfo.ofValue⟩,
     ⟨"token", false, fun r v => (fun s => { r with token := s }) <$> v.readString⟩]
  surplus := false

def ofValue (v : Value) : Except ShapeError ConnectRequest := shape.read v

/-- The wording of the error that a value is no request. -/
def malformedMessage (e : ShapeError) : String := s!"malformed message: {e.message}"

end ConnectRequest

end RingOverlay
