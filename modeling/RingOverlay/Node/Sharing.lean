import RingOverlay.Node.Steps
import RingOverlay.Table.Feed
import RingOverlay.Table.History
/-!
A node whose table is changed by several tasks at once. A call changes the table in one step and sends
its events afterwards, one by one; in between, other calls change the table and send theirs. Beside the
loop of the node another subscriber listens.
-/

set_option autoImplicit false
set_option relaxedAutoImplicit false

namespace RingOverlay

def NodeStep.call? : NodeStep → Option TableCall
  | .add c => some (.add c)
  | .removeEdge e => some (.removeEdge e)
  | _ => none

structure SharedNode where
  node : Node
  calls : List (List TableEvent)
  changes : List TableEvent
  sent : List TableEvent
  feed : EventFeed
  received : List FeedItem

/-- Something that happens to a shared node. -/
inductive SharedStep where
  | node (s : NodeStep)
  | send (call event : Nat)
  | subscribe
  | receive

namespace SharedNode

def resting (n : Node) : SharedNode := ⟨n, [], [], [], .fresh, []⟩

def unsent (x : SharedNode) : List TableEvent := x.calls.flatten

def begin (x : SharedNode) (c : TableCall) : SharedNode :=
  { x with
    node := { x.node with table := x.node.table.apply c }
    calls := x.calls ++ [x.node.table.sent c]
    changes := x.changes ++ x.node.table.sent c }

def send (x : SharedNode) (call event : Nat) : SharedNode :=
  match x.calls[call]?.bind (·[event]?) with
  | some e =>
    { x with
      node := x.node.publish e
      calls := x.calls.modify call (·.eraseIdx event)
      sent := x.sent ++ [e]
      feed := x.feed.push e }
  | none => x

def receive (x : SharedNode) : SharedNode :=
  match x.feed.next? with
  | some (item, feed) => { x with feed, received := x.received ++ [item] }
  | none => x

def step (x : SharedNode) : SharedStep → SharedNode
  | .node s =>
    match s.call? with
    | some c => x.begin c
    | none => { x with node := x.node.step s }
  | .send call event => x.send call event
  | .subscribe => { x with feed := .fresh, received := [] }
  | .receive => x.receive

def run (x : SharedNode) (steps : List SharedStep) : SharedNode := steps.foldl step x

end SharedNode

end RingOverlay
