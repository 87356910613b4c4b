import RingOverlay.Table.Basic
/-!
A subscriber's side of the event stream. It holds a bounded number of unread events; when a further
one arrives, the oldest is lost, and the subscriber learns how many it has lost before it reads on.
-/

set_option autoImplicit false
set_option relaxedAutoImplicit false

namespace RingOverlay

inductive FeedItem where
  | lagged (count : Nat)
  | event (e : TableEvent)
  deriving DecidableEq, Repr

structure EventFeed where
  missed : Nat
  unread : List TableEvent
  deriving DecidableEq, Repr

namespace EventFeed

def capacity : Nat := 256

def fresh : EventFeed := ⟨0, []⟩

def push (f : EventFeed) (e : TableEvent) : EventFeed :=
  if f.unread.length < capacity then { f with unread := f.unread ++ [e] }
  else ⟨f.missed + 1, f.unread.drop 1 ++ [e]⟩

def next? (f : EventFeed) : Option (FeedItem × EventFeed) :=
  if f.missed ≠ 0 then some (.lagged f.missed, { f with missed := 0 })
  else match f.unread with
    | [] => none
    | e :: rest => some (.event e, { f with unread := rest })

def items (f : EventFeed) : List FeedItem :=
  (if f.missed ≠ 0 then [.lagged f.missed] else []) ++ f.unread.map .event

end EventFeed

structure WatchedTable where
  table : ConnectionTable
  feed : EventFeed
  deriving DecidableEq, Repr

namespace WatchedTable

def empty : WatchedTable := ⟨.empty, .fresh⟩

def add (w : WatchedTable) (c : Connection) : Except TableError WatchedTable :=
  (w.table.add c).map fun table => ⟨table, w.feed.push (.connected c)⟩

/-- Takes links into the table, one after the other; tells how many were taken. -/
def addAll (w : WatchedTable) (cs : List Connection) : Nat × WatchedTable :=
  cs.foldl (fun (n, w) c =>
    match w.add c with
    | .ok w => (n + 1, w)
    | .error _ => (n, w)) (0, w)

def removeEdge (w : WatchedTable) (e : EdgeId) : List Connection × WatchedTable :=
  let (gone, table) := w.table.detach e
  (gone, ⟨table, gone.foldl (fun f c => f.push (.disconnected c)) w.feed⟩)

def drain (w : WatchedTable) : List FeedItem × WatchedTable := (w.feed.items, { w with feed := .fresh })

end WatchedTable

end RingOverlay
