import RingOverlay.Table.View
/-!
The connection table: every established link, with at most one link of a type to a position and at
most one link of a type on an edge. Changes are reported as events.
-/

set_option autoImplicit false
set_option relaxedAutoImplicit false

namespace RingOverlay

inductive TableEvent where
  | connected (c : Connection)
  | disconnected (c : Connection)
  deriving DecidableEq, Repr

inductive TableError where
  | alreadyConnected (address : RingAddress) (type : MainType)
  | edgeInUse (edge : EdgeId) (type : MainType)
  deriving DecidableEq, Repr

def TableError.message : TableError → String
  | .alreadyConnected a k => s!"already connected to {a.text} as {k.name}"
  | .edgeInUse e k => s!"{edgeName e} already carries a {k.name} connection"

structure ConnectionTable where
  leaf : RingView
  structured : RingView
  unstructured : RingView
  unknown : RingView
  deriving DecidableEq, Repr

namespace ConnectionTable

def empty : ConnectionTable := ⟨.empty, .empty, .empty, .empty⟩

def view (t : ConnectionTable) : MainType → RingView
  | .leaf => t.leaf
  | .structured => t.structured
  | .unstructured => t.unstructured
  | .unknown => t.unknown

def setView (t : ConnectionTable) (k : MainType) (v : RingView) : ConnectionTable :=
  match k with
  | .leaf => { t with leaf := v }
  | .structured => { t with structured := v }
  | .unstructured => { t with unstructured := v }
  | .unknown => { t with unknown := v }

def count (t : ConnectionTable) (k : MainType) : Nat := (t.view k).size

def size (t : ConnectionTable) : Nat := MainType.all.foldr (fun k n => t.count k + n) 0

def get? (t : ConnectionTable) (k : MainType) (a : RingAddress) : Option Connection := (t.view k).find? a

def contains (t : ConnectionTable) (k : MainType) (a : RingAddress) : Bool := (t.get? k a).isSome

def onEdge (t : ConnectionTable) (e : EdgeId) : List Connection :=
  MainType.all.flatMap fun k => (t.view k).onEdge e

def add (t : ConnectionTable) (c : Connection) : Except TableError ConnectionTable :=
  let v := t.view c.mainType
  if v.hasEdge c.edge then .error (.edgeInUse c.edge c.mainType)
  else match v.position c.address with
    | .found _ => .error (.alreadyConnected c.address c.mainType)
    | .insertAt i => .ok (t.setView c.mainType (v.insert i c))

/-- Takes out the links that an edge carries, and tells which they were. -/
def detach (t : ConnectionTable) (e : EdgeId) : List Connection × ConnectionTable :=
  MainType.all.foldl (fun (gone, t) k =>
    let (more, v) := (t.view k).detach e
    (gone ++ more, t.setView k v)) ([], t)

def removeEdge (t : ConnectionTable) (e : EdgeId) : ConnectionTable := (t.detach e).2

def leftNeighborOf (t : ConnectionTable) (a : RingAddress) : Option Connection :=
  (t.view .structured).leftOf a

def rightNeighborOf (t : ConnectionTable) (a : RingAddress) : Option Connection :=
  (t.view .structured).rightOf a

/-- At most `n` structured links, the nearest to a position first. -/
def nearest (t : ConnectionTable) (a : RingAddress) (n : Nat) : List Connection :=
  (t.view .structured).nearest a n

end ConnectionTable

end RingOverlay
