import RingOverlay.Address.Text
import RingOverlay.Message.NodeInfo
/-!
Established links: the edge that carries one, the peer at its other end, and the type that says
which policy owns it.
-/

set_option autoImplicit false
set_option relaxedAutoImplicit false

namespace RingOverlay

abbrev EdgeId := Nat

def edgeName (e : EdgeId) : String := s!"edge#{e}"

/-- The policies that own links, in order of priority. -/
inductive MainType where
  | leaf
  | structured
  | unstructured
  | unknown
  deriving DecidableEq, Repr

namespace MainType

def all : List MainType := [.leaf, .structured, .unstructured, .unknown]

/-- The place of a type in the order of priority. -/
def rank : MainType → Nat
  | .leaf => 0
  | .structured => 1
  | .unstructured => 2
  | .unknown => 3

def name : MainType → String
  | .leaf => "leaf"
  | .structured => "structured"
  | .unstructured => "unstructured"
  | .unknown => "unknown"

/-- The main type that a full type string names by its part before the first dot. -/
def ofTypeString (s : String) : MainType :=
  let main := s.toList.takeWhile (· != '.')
  if main = MainType.leaf.name.toList then .leaf
  else if main = MainType.structured.name.toList then .structured
  else if main = MainType.unstructured.name.toList then .unstructured
  else .unknown

end MainType

structure Connection where
  edge : EdgeId
  address : RingAddress
  connectionType : String
  neighbors : List NodeInfo
  deriving DecidableEq, Repr

namespace Connection

def mainType (c : Connection) : MainType := .ofTypeString c.connectionType

end Connection

inductive EdgeError where
  | closed
  | transport (reason : String)
  deriving DecidableEq, Repr

def EdgeError.message : EdgeError → String
  | .closed => "edge is closed"
  | .transport reason => s!"transport failure: {reason}"

end RingOverlay
