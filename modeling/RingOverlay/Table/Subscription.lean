import RingOverlay.Table.Feed
import RingOverlay.Table.History
/-!
A subscriber of a table over time. It comes at some moment; from then on calls change the table and
the subscriber reads on, in any order.
-/

set_option autoImplicit false
set_option relaxedAutoImplicit false

namespace RingOverlay

/-- How many events have been sent to a subscriber and not been read yet, the lost ones included. -/
def EventFeed.backlog (f : EventFeed) : Nat := f.missed + f.unread.length

namespace WatchedTable

def join (t : ConnectionTable) : WatchedTable := ⟨t, .fresh⟩

def apply (w : WatchedTable) : TableCall → WatchedTable
  | .add c =>
    match w.add c with
    | .ok w => w
    | .error _ => w
  | .removeEdge e => (w.removeEdge e).2

end WatchedTable

/-- Something that happens to a table or its subscriber. -/
inductive WatchStep where
  | call (c : TableCall)
  | read
  deriving DecidableEq, Repr

def WatchStep.call? : WatchStep → Option TableCall
  | .call c => some c
  | .read => none

structure Subscription where
  watched : WatchedTable
  received : List FeedItem
  deriving DecidableEq, Repr

namespace Subscription

def begin (t : ConnectionTable) : Subscription := ⟨.join t, []⟩

def step (x : Subscription) : WatchStep → Subscription
  | .call c => { x with watched := x.watched.apply c }
  | .read =>
    match x.watched.feed.next? with
    | some (item, feed) => ⟨{ x.watched with feed }, x.received ++ [item]⟩
    | none => x

def run (x : Subscription) (steps : List WatchStep) : Subscription := steps.foldl step x

/-- Whether there are never more unread events than a feed holds. -/
def keepsUp (x : Subscription) : List WatchStep → Bool
  | [] => true
  | s :: steps =>
    (x.step s).watched.feed.backlog ≤ EventFeed.capacity && (x.step s).keepsUp steps

end Subscription

end RingOverlay
