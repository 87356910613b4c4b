import RingOverlay.Table.Basic
/-!
Histories of a table: the calls that change it, and the tables that calls can lead to.
-/

set_option autoImplicit false
set_option relaxedAutoImplicit false

namespace RingOverlay

inductive TableCall where
  | add (c : Connection)
  | removeEdge (e : EdgeId)
  deriving DecidableEq, Repr

namespace ConnectionTable

/-- The table after a call. A link that is refused changes nothing. -/
def apply (t : ConnectionTable) : TableCall → ConnectionTable
  | .add c =>
    match t.add c with
    | .ok t => t
    | .error _ => t
  | .removeEdge e => t.removeEdge e

def sent (t : ConnectionTable) : TableCall → List TableEvent
  | .add c =>
    match t.add c with
    | .ok _ => [.connected c]
    | .error _ => []
  | .removeEdge e => (t.detach e).1.map .disconnected

/-- The table that calls lead to, one after the other, from the table without links. -/
def after (calls : List TableCall) : ConnectionTable := calls.foldl apply empty

def Reachable (t : ConnectionTable) : Prop := ∃ calls, after calls = t

end ConnectionTable

end RingOverlay
